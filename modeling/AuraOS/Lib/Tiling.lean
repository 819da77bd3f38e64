import Mathlib.Data.List.Basic
import Mathlib.Data.List.Chain
import Mathlib.Tactic.Common

/-!
# Regions tiled by blocks

A region of memory is cut into blocks, each a header of `H` bytes and a payload.  The blocks are given
by their sizes in a list of `Blk`; the address of a block is the place where the blocks before it end
(`place`, `span`).  `Seg P prv a nxt L` says that the headers form a doubly linked list: `P` relates
the address of a block to the block and to the addresses before and after it.  Segments split and join
at any block (`seg_append`).

`Settled` is the invariant of an allocator that merges what it frees: no two neighbours are free.
-/

namespace AuraOS.Lib

/-- A block: the size of its payload, and whether it is in use. -/
structure Blk where
  size : ℕ
  used : Bool
  deriving DecidableEq

namespace Tiling

variable {H : ℕ}

/-- The number of bytes the blocks take. -/
def span (H : ℕ) : List Blk → ℕ
  | [] => 0
  | b :: L => H + b.size + span H L

/-- The blocks with their addresses, the first one being at `a`. -/
def place (H : ℕ) : ℕ → List Blk → List (ℕ × Blk)
  | _, [] => []
  | a, b :: L => (a, b) :: place H (a + (H + b.size)) L

/-- The address of the first of the blocks `L` at `a`, or `nxt` if there is none. -/
def nextOf (nxt a : ℕ) : List Blk → ℕ
  | [] => nxt
  | _ :: _ => a

/-- The address of the last of the blocks at `a`, or `prv` if there is none. -/
def lastOf (H prv a : ℕ) : List Blk → ℕ
  | [] => prv
  | b :: L => lastOf H a (a + (H + b.size)) L

/-- The headers of the blocks at `a` form a doubly linked list between `prv` and `nxt`. -/
def Seg (H : ℕ) (P : ℕ → Blk → ℕ → ℕ → Prop) : ℕ → ℕ → ℕ → List Blk → Prop
  | _, _, _, [] => True
  | prv, a, nxt, b :: L =>
    P a b prv (nextOf nxt (a + (H + b.size)) L) ∧ Seg H P a (a + (H + b.size)) nxt L

/-- No two neighbouring blocks are free. -/
def Settled (L : List Blk) : Prop := L.IsChain fun b c => b.used = true ∨ c.used = true

/-! ### Addresses -/

section Place

variable {a x nxt prv : ℕ} {b : Blk} {L L₁ L₂ : List Blk}

@[simp] theorem span_nil : span H [] = 0 := rfl

@[simp] theorem span_cons : span H (b :: L) = H + b.size + span H L := rfl

@[simp] theorem span_append : span H (L₁ ++ L₂) = span H L₁ + span H L₂ := by
  induction L₁ with
  | nil => simp
  | cons b L ih => simp [ih, Nat.add_assoc]

@[simp] theorem place_nil : place H a [] = [] := rfl

@[simp] theorem place_cons : place H a (b :: L) = (a, b) :: place H (a + (H + b.size)) L := rfl

@[simp] theorem place_append :
    place H a (L₁ ++ L₂) = place H a L₁ ++ place H (a + span H L₁) L₂ := by
  induction L₁ generalizing a with
  | nil => simp
  | cons b L ih => simp [ih, Nat.add_assoc]

@[simp] theorem length_place : (place H a L).length = L.length := by
  induction L generalizing a with
  | nil => simp
  | cons b L ih => simp [ih]

theorem dvd_span {d : ℕ} (hH : d ∣ H) (hL : ∀ b ∈ L, d ∣ b.size) : d ∣ span H L := by
  induction L with
  | nil => simp
  | cons b L ih =>
    have hrest := ih fun c hc => hL c (List.mem_cons_of_mem b hc)
    exact Nat.dvd_add (Nat.dvd_add hH (hL b List.mem_cons_self)) hrest

theorem map_snd_place : (place H a L).map Prod.snd = L := by
  induction L generalizing a with
  | nil => rfl
  | cons b L ih => simp [ih]

theorem mul_length_le_span : H * L.length ≤ span H L := by
  induction L with
  | nil => simp
  | cons b L ih =>
    rw [List.length_cons, span_cons, Nat.mul_succ]
    omega

/-- A free block is not among the blocks in use. -/
theorem mem_place_cons_of_free {c : Blk} (hb : b.used = false) (hc : c.used = true) :
    (x, c) ∈ place H a (b :: L) ↔ (x, c) ∈ place H (a + (H + b.size)) L := by
  rw [place_cons, List.mem_cons]
  refine or_iff_right fun e => ?_
  cases e
  rw [hb] at hc
  cases hc

/-- A block lies inside the region. -/
theorem place_bounds (h : (x, b) ∈ place H a L) : a ≤ x ∧ x + (H + b.size) ≤ a + span H L := by
  induction L generalizing a with
  | nil => simp at h
  | cons c L ih =>
    rw [place_cons, List.mem_cons] at h
    rw [span_cons]
    rcases h with h | h
    · cases h
      omega
    · have := ih h
      omega

/-- A block cuts the list in two. -/
theorem exists_append_of_mem_place (h : (x, b) ∈ place H a L) :
    ∃ L₁ L₂, L = L₁ ++ b :: L₂ ∧ x = a + span H L₁ := by
  induction L generalizing a with
  | nil => simp at h
  | cons c L ih =>
    rw [place_cons, List.mem_cons] at h
    rcases h with h | h
    · cases h
      exact ⟨[], L, rfl, rfl⟩
    · obtain ⟨L₁, L₂, rfl, rfl⟩ := ih h
      exact ⟨c :: L₁, L₂, rfl, by rw [span_cons]; omega⟩

/-- Of two blocks, one lies behind the other. -/
theorem place_disjoint {y : ℕ} {c : Blk} (h : (x, b) ∈ place H a L) (h' : (y, c) ∈ place H a L) :
    (x, b) = (y, c) ∨ x + (H + b.size) ≤ y ∨ y + (H + c.size) ≤ x := by
  induction L generalizing a with
  | nil => simp at h
  | cons d L ih =>
    rw [place_cons, List.mem_cons] at h h'
    rcases h with h | h <;> rcases h' with h' | h'
    · exact Or.inl (h.trans h'.symm)
    · cases h
      exact Or.inr (Or.inl (place_bounds h').1)
    · cases h'
      exact Or.inr (Or.inr (place_bounds h).1)
    · exact ih h h'

theorem place_inj {c : Blk} (hH : 0 < H) (h : (x, b) ∈ place H a L) (h' : (x, c) ∈ place H a L) :
    b = c := by
  rcases place_disjoint h h' with e | e | e
  · cases e
    rfl
  · omega
  · omega

/-- The blocks other than the one at `x` lie in front of it or behind it. -/
theorem mem_place_cut {y : ℕ} {c : Blk} (hH : 0 < H) (hx : x = a + span H L₁) :
    y ≠ x ∧ (y, c) ∈ place H a (L₁ ++ b :: L₂) ↔
      (y, c) ∈ place H a L₁ ∨ (y, c) ∈ place H (x + (H + b.size)) L₂ := by
  rw [place_append, List.mem_append, ← hx, place_cons, List.mem_cons]
  constructor
  · rintro ⟨hne, h | h | h⟩
    · exact Or.inl h
    · cases h
      exact absurd rfl hne
    · exact Or.inr h
  · rintro (h | h)
    · have := place_bounds h
      exact ⟨by omega, Or.inl h⟩
    · have := place_bounds h
      exact ⟨by omega, Or.inr (Or.inr h)⟩

@[simp] theorem nextOf_nil : nextOf nxt a [] = nxt := rfl

@[simp] theorem nextOf_cons : nextOf nxt a (b :: L) = a := rfl

@[simp] theorem lastOf_nil : lastOf H prv a [] = prv := rfl

@[simp] theorem lastOf_cons : lastOf H prv a (b :: L) = lastOf H a (a + (H + b.size)) L := rfl

theorem lastOf_append_singleton : lastOf H prv a (L ++ [b]) = a + span H L := by
  induction L generalizing prv a with
  | nil => simp
  | cons c L ih => simp [ih, Nat.add_assoc]

end Place

/-- The payload bytes of the blocks whose flag is `u`. -/
def bytes (u : Bool) : List Blk → ℕ
  | [] => 0
  | b :: L => (if b.used = u then b.size else 0) + bytes u L

theorem bytes_add_bytes (L : List Blk) :
    bytes true L + bytes false L + H * L.length = span H L := by
  induction L with
  | nil => rfl
  | cons b L ih =>
    rw [List.length_cons, span_cons, Nat.mul_succ]
    unfold bytes
    cases b.used
    · rw [if_neg Bool.false_ne_true, if_pos rfl]
      omega
    · rw [if_pos rfl, if_neg (by simp)]
      omega

/-! ### Linked headers -/

section Seg

variable {P Q : ℕ → Blk → ℕ → ℕ → Prop} {prv a nxt x : ℕ} {b : Blk} {L L₁ L₂ : List Blk}

@[simp] theorem seg_nil : Seg H P prv a nxt [] := trivial

@[simp] theorem seg_cons : Seg H P prv a nxt (b :: L) ↔
    P a b prv (nextOf nxt (a + (H + b.size)) L) ∧ Seg H P a (a + (H + b.size)) nxt L := Iff.rfl

/-- **Segments split and join at any block.** -/
theorem seg_append : Seg H P prv a nxt (L₁ ++ L₂) ↔
    Seg H P prv a (nextOf nxt (a + span H L₁) L₂) L₁ ∧
      Seg H P (lastOf H prv a L₁) (a + span H L₁) nxt L₂ := by
  induction L₁ generalizing prv a with
  | nil => simp
  | cons b L ih =>
    have hnext : nextOf nxt (a + (H + b.size)) (L ++ L₂) =
        nextOf (nextOf nxt (a + (H + b.size + span H L)) L₂) (a + (H + b.size)) L := by
      cases L <;> simp
    rw [List.cons_append, seg_cons, ih, seg_cons, lastOf_cons, span_cons, hnext, Nat.add_assoc a,
      and_assoc]

/-- A segment carries over to headers that say the same. -/
theorem Seg.imp (h : Seg H P prv a nxt L)
    (hPQ : ∀ x c p n, (x, c) ∈ place H a L → P x c p n → Q x c p n) : Seg H Q prv a nxt L := by
  induction L generalizing prv a with
  | nil => trivial
  | cons b L ih =>
    exact ⟨hPQ _ _ _ _ List.mem_cons_self h.1,
      ih h.2 fun x c p n hx => hPQ x c p n (List.mem_cons_of_mem _ hx)⟩

/-- What a block's header says. -/
theorem Seg.of_mem (h : Seg H P prv a nxt L) (hx : (x, b) ∈ place H a L) : ∃ p n, P x b p n := by
  induction L generalizing prv a with
  | nil => simp at hx
  | cons c L ih =>
    rw [place_cons, List.mem_cons] at hx
    rcases hx with hx | hx
    · cases hx
      exact ⟨_, _, h.1⟩
    · exact ih h.2 hx

/-- Two segments of the same blocks: their headers have the same links, but for the first link back. -/
theorem Seg.link {prv' : ℕ} (h : Seg H P prv a nxt L) (h' : Seg H Q prv' a nxt L)
    (hx : (x, b) ∈ place H a L) :
    ∃ p p' n, P x b p n ∧ Q x b p' n ∧ (p = p' ∨ p = prv ∧ p' = prv') := by
  induction L generalizing prv prv' a with
  | nil => simp at hx
  | cons c L ih =>
    rw [place_cons, List.mem_cons] at hx
    rcases hx with hx | hx
    · cases hx
      exact ⟨_, _, _, h.1, h'.1, Or.inr ⟨rfl, rfl⟩⟩
    · obtain ⟨p, p', n, hP, hQ, hp⟩ := ih h.2 h'.2 hx
      exact ⟨p, p', n, hP, hQ, Or.inl (hp.elim id fun e => e.1.trans e.2.symm)⟩

end Seg

/-! ### Settled lists -/

section Settled

variable {b c : Blk} {L L₁ L₂ : List Blk}

theorem settled_append : Settled (L₁ ++ L₂) ↔ Settled L₁ ∧ Settled L₂ ∧
    ∀ b ∈ L₁.getLast?, ∀ c ∈ L₂.head?, b.used = true ∨ c.used = true :=
  List.isChain_append

/-- Every block in use is followed by anything. -/
theorem settled_cons_of_used (hb : b.used = true) : Settled (b :: L) ↔ Settled L := by
  cases L with
  | nil => simp [Settled]
  | cons c L => simp [Settled, hb]

/-- A free block is followed by one in use. -/
theorem settled_cons_of_free (hb : b.used = false) :
    Settled (b :: L) ↔ Settled L ∧ ∀ c ∈ L.head?, c.used = true := by
  cases L with
  | nil => simp [Settled]
  | cons c L => simp [Settled, hb, and_comm]

/-- The neighbours of a block in use do not matter. -/
theorem settled_append_cons_of_used (hb : b.used = true) :
    Settled (L₁ ++ b :: L₂) ↔ Settled L₁ ∧ Settled L₂ := by
  rw [settled_append, settled_cons_of_used hb]
  simp [hb]

theorem settled_append_cons_of_free (hb : b.used = false) :
    Settled (L₁ ++ b :: L₂) ↔
      Settled L₁ ∧ Settled (b :: L₂) ∧ ∀ c ∈ L₁.getLast?, c.used = true := by
  rw [settled_append]
  simp [hb]

/-- A settled list of free blocks has at most one. -/
theorem Settled.eq_singleton (h : Settled L) (hne : L ≠ []) (hfree : ∀ b ∈ L, b.used = false) :
    ∃ b, L = [b] := by
  rcases L with _ | ⟨b, _ | ⟨c, L⟩⟩
  · exact absurd rfl hne
  · exact ⟨b, rfl⟩
  · have hbc := (List.isChain_cons_cons.1 h).1
    rw [hfree b (by simp), hfree c (by simp)] at hbc
    simp at hbc

/-- A free block of a settled list lies between blocks in use or the ends of the region.  So if these
are at multiples of `d`, all sizes are multiples of `d`. -/
theorem Settled.dvd_size {d a : ℕ} (h : Settled L) (hH : d ∣ H) (ha : d ∣ a) (hend : d ∣ a + span H L)
    (hused : ∀ x b, (x, b) ∈ place H a L → b.used = true → d ∣ x ∧ d ∣ b.size) :
    ∀ b ∈ L, d ∣ b.size := by
  induction L generalizing a with
  | nil => simp
  | cons b L ih =>
    have hrest : ∀ x c, (x, c) ∈ place H (a + (H + b.size)) L → c.used = true → d ∣ x ∧ d ∣ c.size :=
      fun x c hx => hused x c (List.mem_cons_of_mem _ hx)
    have hb : d ∣ b.size := by
      cases hu : b.used with
      | true => exact (hused a b List.mem_cons_self hu).2
      | false =>
        -- the end of a free block is the end of the region, or a block in use
        have hstop : d ∣ a + (H + b.size) := by
          rcases L with _ | ⟨c, L⟩
          · simpa using hend
          · have hc : c.used = true := ((settled_cons_of_free hu).1 h).2 c (by simp)
            exact (hrest _ c List.mem_cons_self hc).1
        rwa [Nat.dvd_add_right ha, Nat.dvd_add_right hH] at hstop
    have ha' : d ∣ a + (H + b.size) := (Nat.dvd_add_right ha).2 ((Nat.dvd_add_right hH).2 hb)
    have hend' : d ∣ a + (H + b.size) + span H L := by
      rwa [span_cons, ← Nat.add_assoc] at hend
    intro c hc
    rcases List.mem_cons.1 hc with rfl | hc
    · exact hb
    · exact ih h.tail ha' hend' hrest c hc

end Settled

/-! ### Merging with the next block -/

/-- The block `b` in front of `L`, taking over the first of these if it is free. -/
def absorb (H : ℕ) (b : Blk) : List Blk → List Blk
  | [] => [b]
  | c :: L => if c.used then b :: c :: L else ⟨b.size + H + c.size, b.used⟩ :: L

section Absorb

variable {a y : ℕ} {b c d : Blk} {L L₁ L₂ : List Blk}

/-- **Merging a free block with its successor** settles it, and moves no block that is in use. -/
theorem absorb_spec (hb : b.used = false) (hL : Settled L) :
    ∃ s L', absorb H b L = ⟨s, false⟩ :: L' ∧ Settled (⟨s, false⟩ :: L') ∧
      H + s + span H L' = H + b.size + span H L ∧
      ∀ a y c, c.used = true →
        ((y, c) ∈ place H a (⟨s, false⟩ :: L') ↔ (y, c) ∈ place H a (b :: L)) := by
  obtain ⟨s, u⟩ := b
  obtain rfl : u = false := hb
  rcases L with _ | ⟨c, L⟩
  · exact ⟨s, [], rfl, by simp [Settled], rfl, fun _ _ _ _ => Iff.rfl⟩
  cases hc : c.used with
  | true =>
    refine ⟨s, c :: L, by simp [absorb, hc], ?_, rfl, fun _ _ _ _ => Iff.rfl⟩
    rw [settled_cons_of_free rfl]
    exact ⟨hL, by simp [hc]⟩
  | false =>
    refine ⟨s + H + c.size, L, by simp [absorb, hc], ?_, by simp; omega, fun a y d hd => ?_⟩
    · rw [settled_cons_of_free hc] at hL
      rwa [settled_cons_of_free rfl]
    · rw [mem_place_cons_of_free rfl hd, mem_place_cons_of_free rfl hd, mem_place_cons_of_free hc hd,
        show a + (H + (s + H + c.size)) = a + (H + s) + (H + c.size) by omega]

/-- Merging a free block into the free one in front of it settles the list. -/
theorem settled_join {s t u : ℕ} (h₁ : Settled (L₁ ++ [⟨s, false⟩])) (h₂ : Settled (⟨t, false⟩ :: L₂)) :
    Settled (L₁ ++ ⟨u, false⟩ :: L₂) := by
  rw [settled_append_cons_of_free rfl] at h₁ ⊢
  rw [settled_cons_of_free rfl] at h₂ ⊢
  exact ⟨h₁.1, h₂, h₁.2.2⟩

end Absorb

/-! ### Taking a free block -/

/-- The block `b` is taken for `n` bytes.  The rest becomes a free block if `k` bytes of payload would be
left to it. -/
def carve (H k n : ℕ) (b : Blk) : List Blk :=
  if n + H + k ≤ b.size then [⟨n, true⟩, ⟨b.size - n - H, false⟩] else [⟨b.size, true⟩]

section Carve

variable {k n : ℕ} {b : Blk} {L L₁ L₂ : List Blk}

/-- The block taken is large enough, and wastes less than a header and `k` bytes. -/
theorem carve_spec (hk : 0 < k) (h : n ≤ b.size) : ∃ s R, carve H k n b = ⟨s, true⟩ :: R ∧ n ≤ s ∧
    s < n + H + k ∧ (R = [] ∧ s = b.size ∨ ∃ t, R = [⟨t, false⟩] ∧ s + H + t = b.size) := by
  unfold carve
  by_cases hsplit : n + H + k ≤ b.size
  · rw [if_pos hsplit]
    exact ⟨n, _, rfl, Nat.le_refl n, by omega, Or.inr ⟨_, rfl, by omega⟩⟩
  · rw [if_neg hsplit]
    exact ⟨b.size, [], rfl, h, by omega, Or.inl ⟨rfl, rfl⟩⟩

@[simp] theorem span_carve : span H (carve H k n b) = H + b.size := by
  unfold carve
  split
  · simp only [span_cons, span_nil]
    omega
  · simp

theorem dvd_size_carve {d : ℕ} (hH : d ∣ H) (hn : d ∣ n) (hb : d ∣ b.size) :
    ∀ c ∈ carve H k n b, d ∣ c.size := by
  unfold carve
  split
  · simp only [List.mem_cons, List.not_mem_nil, or_false, forall_eq_or_imp, forall_eq]
    exact ⟨hn, Nat.dvd_sub (Nat.dvd_sub hb hn) hH⟩
  · simpa using hb

/-- Behind a free block there is one in use, so that the list stays settled. -/
theorem settled_carve (h : Settled (L₁ ++ b :: L₂)) (hb : b.used = false) :
    Settled (L₁ ++ carve H k n b ++ L₂) := by
  rw [settled_append_cons_of_free hb, settled_cons_of_free hb] at h
  obtain ⟨h₁, ⟨h₂, hhead⟩, -⟩ := h
  rw [List.append_assoc]
  unfold carve
  split
  · rw [List.cons_append, settled_append_cons_of_used rfl, List.singleton_append,
      settled_cons_of_free rfl]
    exact ⟨h₁, h₂, hhead⟩
  · rw [List.singleton_append, settled_append_cons_of_used rfl]
    exact ⟨h₁, h₂⟩

/-- **Freeing what was taken**: the block merges with the rest, and with nothing else. -/
theorem absorb_carve (h : Settled (b :: L)) (hb : b.used = false) {s : ℕ} {R : List Blk}
    (hc : carve H k n b = ⟨s, true⟩ :: R) (hn : n ≤ b.size) (hk : 0 < k) :
    absorb H ⟨s, false⟩ (R ++ L) = b :: L := by
  obtain ⟨z, u⟩ := b
  obtain rfl : u = false := hb
  obtain ⟨s', R', e, -, -, hrest⟩ := carve_spec (H := H) (k := k) hk hn
  cases hc.symm.trans e
  rw [settled_cons_of_free rfl] at h
  rcases hrest with ⟨rfl, rfl⟩ | ⟨t, rfl, hsize⟩
  · cases L with
    | nil => rfl
    | cons c L =>
      have hcu : c.used = true := h.2 c (by simp)
      simp [absorb, hcu]
  · simp [absorb, hsize]

end Carve

end Tiling

end AuraOS.Lib
