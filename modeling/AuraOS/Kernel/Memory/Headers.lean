import AuraOS.Kernel.Memory.Defs
import AuraOS.Lib.Tiling

/-!
# Block headers in memory

`Hdr m x b p n`: the header at `x` describes the block `b` and links it to `p` and `n`.  The heap is a
segment of such headers.  Its four changes are described here: marking a block (`headers_mark`), giving
its first block another predecessor (`headers_relink`), splitting a block (`headers_split`) and joining
two (`headers_join`).
-/

namespace AuraOS.Kernel.Memory

open AuraOS.Lib AuraOS.Lib.Tiling

/-- The header at `x` describes the block `b`, between the blocks at `p` and `n`. -/
structure Hdr (m : Mem) (x : ℕ) (b : Blk) (p n : ℕ) : Prop where
  magic : magic m x = blockMagic
  size : size m x = b.size
  used : used m x = if b.used then memUsed else memFree
  next : next m x = n
  prev : prev m x = p

/-- The headers of the blocks `L` at `a`. -/
abbrev Headers (m : Mem) (prv a nxt : ℕ) (L : List Blk) : Prop := Seg 20 (Hdr m) prv a nxt L

/-! ### Frames -/

section Frame

variable {m m' : Mem} {prv a nxt x p n : ℕ} {b : Blk} {L : List Blk}

theorem Hdr.congr (h : Hdr m x b p n) (heq : ∀ z, x ≤ z → z < x + 20 → m' z = m z) :
    Hdr m' x b p n := by
  obtain ⟨h1, h2, h3, h4, h5⟩ := h
  refine ⟨?_, ?_, ?_, ?_, ?_⟩
  · exact (Mem.load32_congr fun z hz hz' => heq z (by omega) (by omega)).trans h1
  · exact (Mem.load32_congr fun z hz hz' => heq z (by omega) (by omega)).trans h2
  · exact (Mem.load8_congr (heq _ (by omega) (by omega))).trans h3
  · exact (Mem.load32_congr fun z hz hz' => heq z (by omega) (by omega)).trans h4
  · exact (Mem.load32_congr fun z hz hz' => heq z (by omega) (by omega)).trans h5

theorem setUsed_eq_self (h : used m x = memFree) : setUsed m x memFree = m := by
  have hbyte : UInt8.ofNat memFree = m (x + 8) := UInt8.toNat.inj h.symm
  unfold setUsed Mem.store8
  rw [hbyte]
  exact Function.update_eq_self _ _

/-- A change outside the region leaves its headers alone. -/
theorem headers_congr (h : Headers m prv a nxt L)
    (heq : ∀ z, a ≤ z → z < a + span 20 L → m' z = m z) : Headers m' prv a nxt L := by
  refine h.imp fun x c p n hx hc => hc.congr fun z hz hz' => ?_
  have := place_bounds hx
  exact heq z (by omega) (by omega)

theorem relink_apply {q z : ℕ} (h : z < q ∨ q + 20 ≤ z) : relink m q p z = m z := by
  unfold relink setPrev
  split
  · exact Mem.store32_apply (by omega)
  · rfl

end Frame

/-! ### The changes of the allocator -/

section Changes

variable {m m' : Mem} {prv a nxt x y : ℕ} {b c : Blk} {L L₁ L₂ : List Blk}

/-- The headers in front of a block, its own, and those behind it. -/
theorem headers_cut (hx : x = a + span 20 L₁) : Headers m prv a nxt (L₁ ++ b :: L₂) ↔
    Headers m prv a x L₁ ∧
      Hdr m x b (lastOf 20 prv a L₁) (nextOf nxt (x + (20 + b.size)) L₂) ∧
      Headers m x (x + (20 + b.size)) nxt L₂ := by
  subst hx
  exact seg_append

/-- **Mark** the block at `x` as used or free. -/
theorem headers_mark (h : Headers m prv a 0 (L₁ ++ b :: L₂)) (hx : x = a + span 20 L₁) (u : Bool) :
    Headers (setUsed m x (if u then memUsed else memFree)) prv a 0
      (L₁ ++ { b with used := u } :: L₂) := by
  have hfr : ∀ z, z < x ∨ x + 20 ≤ z → setUsed m x (if u then memUsed else memFree) z = m z :=
    fun z hz => Mem.store8_apply (by omega)
  rw [headers_cut hx] at h ⊢
  obtain ⟨h1, h2, h3⟩ := h
  refine ⟨headers_congr h1 fun z hz hz' => hfr z (by omega), ?_,
    headers_congr h3 fun z hz hz' => hfr z (by omega)⟩
  obtain ⟨e1, e2, e3, e4, e5⟩ := h2
  simp only [magic, size, next, prev] at e1 e2 e4 e5
  constructor <;> simp (disch := omega) only [magic, size, used, next, prev, setUsed,
    Mem.load8_store8, Mem.load32_store8_of_ne, e1, e2, e4, e5]
  cases u <;> rfl

/-- **Relink**: the first block, if there is one, gets the predecessor `y`. -/
theorem headers_relink (h : Headers m prv a 0 L) (ha : a ≠ 0) (hy : y < 2 ^ 32) :
    Headers (relink m (nextOf 0 a L) y) y a 0 L := by
  cases L with
  | nil => trivial
  | cons b L =>
    obtain ⟨⟨e1, e2, e3, e4, e5⟩, h2⟩ := h
    have hfr : ∀ z, z < a ∨ a + 20 ≤ z → relink m a y z = m z := fun z hz => relink_apply hz
    refine ⟨?_, headers_congr h2 fun z hz hz' => hfr z (by omega)⟩
    rw [nextOf_cons]
    unfold relink
    rw [if_pos ha]
    simp only [magic, size, used, next] at e1 e2 e3 e4
    constructor <;> simp (disch := omega) only [magic, size, used, next, prev, setPrev,
      Mem.load32_store32, Mem.load32_store32_of_ne, Mem.load8_store32_of_ne, Nat.mod_eq_of_lt,
      e1, e2, e3, e4]

/-- A header of a free block of `sz` bytes is written at `p`. -/
def newHeader (m : Mem) (p sz nxt prv : ℕ) : Mem :=
  setPrev (setNext (setUsed (setSize (setMagic m p blockMagic) p sz) p memFree) p nxt) p prv

theorem newHeader_apply {p sz nxt prv z : ℕ} (hz : z < p ∨ p + 20 ≤ z) :
    newHeader m p sz nxt prv z = m z := by
  unfold newHeader
  simp (disch := omega) only [setPrev, setNext, setUsed, setSize, setMagic, Mem.store32_apply,
    Mem.store8_apply]

theorem hdr_newHeader {p sz nxt prv : ℕ} (hsz : sz < 2 ^ 32) (hnxt : nxt < 2 ^ 32)
    (hprv : prv < 2 ^ 32) : Hdr (newHeader m p sz nxt prv) p ⟨sz, false⟩ prv nxt := by
  unfold newHeader
  constructor <;> simp (disch := omega) only [magic, size, used, next, prev, setMagic, setSize,
    setUsed, setNext, setPrev, Mem.load8_store8, Mem.load32_store32, Mem.load32_store32_of_ne,
    Mem.load8_store32_of_ne, Mem.load32_store8_of_ne, Nat.mod_eq_of_lt]
  · rfl
  · rfl

/-- Splitting writes a new header behind the `sz` bytes, relinks the next block, and then cuts the block. -/
theorem splitBlock_eq (h : Headers m prv a 0 (L₁ ++ b :: L₂)) (hx : x = a + span 20 L₁) {sz n q : ℕ}
    (hsz : sz + 20 ≤ b.size) (hb : x + (20 + b.size) ≤ 2 ^ 31) (hn : n = x + 20 + sz)
    (hq : q = nextOf 0 (x + (20 + b.size)) L₂) : splitBlock m x sz =
      setSize (setNext (relink (newHeader m n (b.size - sz - 20) q x) q n) x n) x sz := by
  obtain ⟨-, ⟨-, e2, -, e4, -⟩, -⟩ := (headers_cut hx).1 h
  rw [← hq] at e4
  have hsub : sub32 (sub32 b.size sz) 20 = b.size - sz - 20 := by
    unfold sub32
    omega
  obtain ⟨m₁, hm₁⟩ : ∃ m₁, m₁ = newHeader m n (b.size - sz - 20) q x := ⟨_, rfl⟩
  have hmod : (x + 20 + sz) % 2 ^ 32 = n := by omega
  have hsize : size (setMagic m n blockMagic) x = b.size := by
    rw [← e2]
    exact Mem.load32_store32_of_ne (by omega)
  have hnext : next (setUsed (setSize (setMagic m n blockMagic) n (b.size - sz - 20)) n memFree) x = q := by
    rw [← e4]
    simp (disch := omega) only [next, setUsed, setSize, setMagic, Mem.load32_store8_of_ne,
      Mem.load32_store32_of_ne]
  have hnext' : next m₁ x = q := by
    rw [← e4, hm₁]
    exact Mem.load32_congr fun z _ hz => newHeader_apply (Or.inl (by omega))
  rw [← hm₁]
  unfold newHeader at hm₁
  unfold splitBlock
  simp only [hmod, hsize, hsub, hnext, ← hm₁, hnext']

/-- The bytes that splitting leaves alone. -/
theorem splitBlock_apply (h : Headers m prv a 0 (L₁ ++ b :: L₂)) (hx : x = a + span 20 L₁) {sz z : ℕ}
    (hsz : sz + 20 ≤ b.size) (hb : x + (20 + b.size) ≤ 2 ^ 31)
    (hz : z < x ∨ x + (20 + b.size) ≤ z) (hz' : z < x + (20 + b.size) + 16 ∨ x + (20 + b.size) + 20 ≤ z) :
    splitBlock m x sz z = m z := by
  rw [splitBlock_eq h hx hsz hb rfl rfl]
  have hnew : newHeader m (x + 20 + sz) (b.size - sz - 20) (nextOf 0 (x + (20 + b.size)) L₂) x z = m z :=
    newHeader_apply (by omega)
  unfold setSize setNext
  rw [Mem.store32_apply (by omega), Mem.store32_apply (by omega), ← hnew]
  cases L₂ with
  | nil => rfl
  | cons c L =>
    rw [nextOf_cons]
    unfold relink setPrev
    rw [if_pos (by omega)]
    exact Mem.store32_apply (by omega)

/-- **Split** the block at `x` behind `sz` bytes. -/
theorem headers_split (h : Headers m prv a 0 (L₁ ++ b :: L₂)) (hx : x = a + span 20 L₁) {sz : ℕ}
    (hsz : sz + 20 ≤ b.size) (hb : x + (20 + b.size) ≤ 2 ^ 31) :
    Headers (splitBlock m x sz) prv a 0
      (L₁ ++ ⟨sz, b.used⟩ :: ⟨b.size - sz - 20, false⟩ :: L₂) := by
  -- the new header `n` lies in the payload of `x`, and the next block `y` behind both
  obtain ⟨n, hn⟩ : ∃ n, n = x + 20 + sz := ⟨_, rfl⟩
  obtain ⟨y, hy⟩ : ∃ y, y = x + (20 + b.size) := ⟨_, rfl⟩
  have hsplit := splitBlock_eq h hx hsz hb hn (q := nextOf 0 y L₂) (by rw [hy])
  rw [headers_cut hx] at h ⊢
  obtain ⟨h1, ⟨e1, e2, e3, e4, e5⟩, h3⟩ := h
  rw [← hy] at h3 e4
  obtain ⟨m₁, hm₁⟩ : ∃ m₁, m₁ = newHeader m n (b.size - sz - 20) (nextOf 0 y L₂) x := ⟨_, rfl⟩
  rw [← hm₁] at hsplit
  have hnextlt : nextOf 0 y L₂ < 2 ^ 32 := by
    rw [← e4]
    exact Mem.load32_lt
  have hfr₁ : ∀ z, z < n ∨ n + 20 ≤ z → m₁ z = m z := by
    intro z hz
    rw [hm₁]
    exact newHeader_apply hz
  have hq : nextOf 0 y L₂ = 0 ∨ nextOf 0 y L₂ = y := by
    cases L₂
    · exact Or.inl rfl
    · exact Or.inr rfl
  have hfr₂ : ∀ z, z < y → relink m₁ (nextOf 0 y L₂) n z = m₁ z := by
    intro z hz
    rcases hq with e | e
    · unfold relink
      rw [e]
      rfl
    · exact relink_apply (by omega)
  have hfr₃ : ∀ z, z < x ∨ x + 20 ≤ z → splitBlock m x sz z = relink m₁ (nextOf 0 y L₂) n z := by
    intro z hz
    rw [hsplit]
    simp (disch := omega) only [setNext, setSize, Mem.store32_apply]
  refine ⟨headers_congr h1 fun z hz hz' => ?_, ?_, ?_, ?_⟩
  · rw [hfr₃ z (by omega), hfr₂ z (by omega), hfr₁ z (by omega)]
  · -- the header at `x`
    have hold : Hdr (relink m₁ (nextOf 0 y L₂) n) x b (lastOf 20 prv a L₁) (nextOf 0 y L₂) :=
      Hdr.congr ⟨e1, e2, e3, e4, e5⟩ fun z hz hz' => by rw [hfr₂ z (by omega), hfr₁ z (by omega)]
    obtain ⟨f1, f2, f3, f4, f5⟩ := hold
    simp only [magic, used, prev] at f1 f3 f5
    rw [hsplit]
    constructor <;> simp (disch := omega) only [magic, size, used, next, prev, setSize, setNext,
      Mem.load32_store32, Mem.load32_store32_of_ne, Mem.load8_store32_of_ne, Nat.mod_eq_of_lt, f1, f3,
      f5, nextOf_cons]
    omega
  · -- the new header
    have hnew : Hdr m₁ n ⟨b.size - sz - 20, false⟩ x (nextOf 0 y L₂) :=
      hm₁ ▸ hdr_newHeader (by omega) hnextlt (by omega)
    rw [show x + (20 + sz) = n by omega, show n + (20 + (b.size - sz - 20)) = y by omega]
    exact hnew.congr fun z hz hz' => by rw [hfr₃ z (by omega), hfr₂ z (by omega)]
  · rw [show x + (20 + sz) = n by omega, show n + (20 + (b.size - sz - 20)) = y by omega]
    have h4 : Headers m₁ x y 0 L₂ := headers_congr h3 fun z hz hz' => hfr₁ z (by omega)
    have h5 := headers_relink h4 (by omega) (show n < 2 ^ 32 by omega)
    exact headers_congr h5 fun z hz hz' => hfr₃ z (by omega)

/-- The block at `x` takes over the one behind it. -/
def joinBlocks (m : Mem) (x sz q : ℕ) : Mem := relink (setNext (setSize m x sz) x q) q x

theorem joinBlocks_apply {w q v z : ℕ} (hz : z < w ∨ w + 20 ≤ z) (hq : q ≠ 0 → z < q ∨ q + 20 ≤ z) :
    joinBlocks m w v q z = m z := by
  have hset : setNext (setSize m w v) w q z = m z := by
    unfold setNext setSize
    rw [Mem.store32_apply (by omega), Mem.store32_apply (by omega)]
  by_cases h0 : q = 0
  · unfold joinBlocks relink
    rw [if_neg (not_not.2 h0), hset]
  · exact (relink_apply (hq h0)).trans hset

theorem size_joinBlocks {w q v : ℕ} (hv : v < 2 ^ 32) (hq : q ≠ 0 → w + 20 ≤ q) :
    size (joinBlocks m w v q) w = v := by
  have hset : size (setNext (setSize m w v) w q) w = v :=
    (Mem.load32_store32_of_ne (by omega)).trans (Mem.load32_store32.trans (Nat.mod_eq_of_lt hv))
  by_cases h0 : q = 0
  · unfold joinBlocks relink
    rw [if_neg (not_not.2 h0), hset]
  · have := hq h0
    exact (Mem.load32_congr fun z hz hz' => relink_apply (Or.inl (by omega))).trans hset

/-- **Join** the block at `x` with the one behind it. -/
theorem headers_join (h : Headers m prv a 0 (L₁ ++ b :: c :: L₂)) (hx : x = a + span 20 L₁)
    (hy : y = x + (20 + b.size) + (20 + c.size)) (hb : y ≤ 2 ^ 31) :
    Headers (joinBlocks m x (b.size + 20 + c.size) (nextOf 0 y L₂)) prv a 0
      (L₁ ++ ⟨b.size + 20 + c.size, b.used⟩ :: L₂) := by
  rw [headers_cut hx] at h ⊢
  obtain ⟨h1, ⟨e1, e2, e3, e4, e5⟩, ⟨f1, f2, f3, f4, f5⟩, h3⟩ := h
  rw [← hy] at f4 h3
  rw [show x + (20 + (b.size + 20 + c.size)) = y by omega]
  have hnextlt : nextOf 0 y L₂ < 2 ^ 32 := by
    rw [← f4]
    exact Mem.load32_lt
  obtain ⟨m₁, hm₁⟩ : ∃ m₁, m₁ = setNext (setSize m x (b.size + 20 + c.size)) x (nextOf 0 y L₂) :=
    ⟨_, rfl⟩
  have hfr₁ : ∀ z, z < x ∨ x + 20 ≤ z → m₁ z = m z := by
    intro z hz
    rw [hm₁]
    simp (disch := omega) only [setNext, setSize, Mem.store32_apply]
  have hfr₂ : ∀ z, z < y → relink m₁ (nextOf 0 y L₂) x z = m₁ z := by
    intro z hz
    cases L₂ with
    | nil => rfl
    | cons d L => exact relink_apply (Or.inl hz)
  unfold joinBlocks
  rw [← hm₁]
  refine ⟨headers_congr h1 fun z hz hz' => ?_, ?_, ?_⟩
  · rw [hfr₂ z (by omega), hfr₁ z (by omega)]
  · have hnew : Hdr m₁ x ⟨b.size + 20 + c.size, b.used⟩ (lastOf 20 prv a L₁) (nextOf 0 y L₂) := by
      simp only [magic, used, prev] at e1 e3 e5
      rw [hm₁]
      constructor <;> simp (disch := omega) only [magic, size, used, next, prev, setSize, setNext,
        Mem.load32_store32, Mem.load32_store32_of_ne, Mem.load8_store32_of_ne, Nat.mod_eq_of_lt,
        e1, e3, e5]
    exact hnew.congr fun z hz hz' => hfr₂ z (by omega)
  · have h4 : Headers m₁ (x + (20 + b.size)) y 0 L₂ :=
      headers_congr h3 fun z hz hz' => hfr₁ z (by omega)
    exact headers_relink h4 (by omega) (show x < 2 ^ 32 by omega)

end Changes

end AuraOS.Kernel.Memory
