import Mathlib.Data.Nat.ModEq
import Mathlib.Data.List.Range
import Mathlib.Logic.Function.Basic

/-!
# Ring buffers

A queue in an array of `N` slots: `count` elements from slot `head` on, wrapping around at `N`, and
`tail` the next slot to fill.  The bounds of the indices are part of the structure.  A ring stands for
the list of its elements (`toList`); `push` appends to that list and `pop` takes its first element off.
`Is` relates the variables of a program to the ring that they are, and `slots` are the slots of the
elements, in the same order.
-/

namespace AuraOS.Lib

structure Ring (α : Type*) (N : ℕ) where
  buf : ℕ → α
  head : ℕ
  tail : ℕ
  count : ℕ
  head_lt : head < N
  tail_eq : tail = (head + count) % N
  count_le : count ≤ N

namespace Ring

variable {α : Type*} {N : ℕ} (r : Ring α N)

theorem tail_lt : r.tail < N := by
  rw [r.tail_eq]
  exact Nat.mod_lt _ (Nat.zero_lt_of_lt r.head_lt)

/-- The elements, the oldest first. -/
def toList : List α := (List.range r.count).map fun i => r.buf ((r.head + i) % N)

@[simp] theorem length_toList : r.toList.length = r.count := by
  simp [toList]

/-- The ring without elements at slot 0. -/
def empty (buf : ℕ → α) (h : 0 < N) : Ring α N where
  buf := buf
  head := 0
  tail := 0
  count := 0
  head_lt := h
  tail_eq := (Nat.zero_mod N).symm
  count_le := Nat.zero_le N

/-- Put `x` behind the last element. -/
def push (x : α) (h : r.count < N) : Ring α N where
  buf := Function.update r.buf r.tail x
  head := r.head
  tail := (r.tail + 1) % N
  count := r.count + 1
  head_lt := r.head_lt
  tail_eq := by rw [r.tail_eq, Nat.mod_add_mod, Nat.add_assoc]
  count_le := h

/-- Take the first element off. -/
def pop (h : 0 < r.count) : Ring α N where
  buf := r.buf
  head := (r.head + 1) % N
  tail := r.tail
  count := r.count - 1
  head_lt := Nat.mod_lt _ (Nat.zero_lt_of_lt r.head_lt)
  tail_eq := by
    rw [r.tail_eq, Nat.mod_add_mod]
    congr 1
    omega
  count_le := (Nat.sub_le _ _).trans r.count_le

@[simp] theorem head_push (x : α) (h : r.count < N) : (r.push x h).head = r.head := rfl
@[simp] theorem tail_push (x : α) (h : r.count < N) : (r.push x h).tail = (r.tail + 1) % N := rfl
@[simp] theorem count_push (x : α) (h : r.count < N) : (r.push x h).count = r.count + 1 := rfl

@[simp] theorem head_pop (h : 0 < r.count) : (r.pop h).head = (r.head + 1) % N := rfl
@[simp] theorem tail_pop (h : 0 < r.count) : (r.pop h).tail = r.tail := rfl
@[simp] theorem count_pop (h : 0 < r.count) : (r.pop h).count = r.count - 1 := rfl

/-- The slots of different elements are different. -/
theorem slot_ne {h i c : ℕ} (hi : i < c) (hc : c < N) : (h + i) % N ≠ (h + c) % N := by
  intro e
  have hmod : i ≡ c [MOD N] := Nat.ModEq.add_left_cancel' h e
  have := hmod.eq_of_lt_of_lt (hi.trans hc) hc
  omega

/-- **`push` appends.** -/
theorem toList_push (x : α) (h : r.count < N) : (r.push x h).toList = r.toList ++ [x] := by
  have hlast : (r.push x h).buf ((r.head + r.count) % N) = x := by
    rw [← r.tail_eq]
    exact Function.update_self _ _ _
  have hrest : ∀ i ∈ List.range r.count,
      (r.push x h).buf ((r.head + i) % N) = r.buf ((r.head + i) % N) := by
    intro i hi
    refine Function.update_of_ne ?_ _ _
    rw [r.tail_eq]
    exact slot_ne (List.mem_range.1 hi) h
  change (List.range (r.count + 1)).map (fun i => (r.push x h).buf ((r.head + i) % N)) = _
  rw [List.range_succ, List.map_append, List.map_congr_left hrest, List.map_singleton, hlast]
  rfl

/-- **`pop` takes the oldest element.** -/
theorem toList_pop (h : 0 < r.count) : r.toList = r.buf r.head :: (r.pop h).toList := by
  obtain ⟨n, hn⟩ : ∃ n, r.count = n + 1 := ⟨r.count - 1, by omega⟩
  have hhead : (r.head + 0) % N = r.head := Nat.mod_eq_of_lt r.head_lt
  have hslot : ∀ i, (r.head + (i + 1)) % N = ((r.head + 1) % N + i) % N := by
    intro i
    rw [Nat.mod_add_mod]
    congr 1
    omega
  have hcount : (r.pop h).count = n := by
    change r.count - 1 = n
    omega
  unfold toList
  rw [hcount, hn, List.range_succ_eq_map, List.map_cons, List.map_map, hhead]
  congr 1
  refine List.map_congr_left fun i _ => ?_
  change r.buf ((r.head + (i + 1)) % N) = r.buf (((r.head + 1) % N + i) % N)
  rw [hslot]

/-! ### The variables of a ring -/

/-- The array `buf` with the indices `head` and `tail` and the number `count` of elements is the ring. -/
structure Is (buf : ℕ → α) (head tail count : ℕ) : Prop where
  buf : buf = r.buf
  head : head = r.head
  tail : tail = r.tail
  count : count = r.count

section Is

variable {r : Ring α N} {buf : ℕ → α} {head tail count : ℕ}

theorem is_empty (buf : ℕ → α) (h : 0 < N) : (empty buf h).Is buf 0 0 0 := ⟨rfl, rfl, rfl, rfl⟩

theorem Is.push (h : r.Is buf head tail count) (hc : r.count < N) (x : α) :
    (r.push x hc).Is (Function.update buf tail x) head ((tail + 1) % N) (count + 1) := by
  obtain ⟨rfl, rfl, rfl, rfl⟩ := h
  exact ⟨rfl, rfl, rfl, rfl⟩

theorem Is.pop (h : r.Is buf head tail count) (hc : 0 < r.count) :
    (r.pop hc).Is buf ((head + 1) % N) tail (count - 1) := by
  obtain ⟨rfl, rfl, rfl, rfl⟩ := h
  exact ⟨rfl, rfl, rfl, rfl⟩

/-- The elements in the array. -/
theorem Is.toList_eq (h : r.Is buf head tail count) :
    r.toList = (List.range count).map fun i => buf ((head + i) % N) := by
  obtain ⟨rfl, rfl, rfl, rfl⟩ := h
  rfl

/-- The oldest one is at `head`. -/
theorem Is.toList_pop (h : r.Is buf head tail count) (hc : 0 < r.count) :
    r.toList = buf head :: (r.pop hc).toList := by
  obtain ⟨rfl, rfl, rfl, rfl⟩ := h
  exact r.toList_pop hc

end Is

/-! ### The slots -/

/-- The slots of the elements, the oldest first. -/
def slots : List ℕ := (List.range r.count).map fun i => (r.head + i) % N

theorem tail_notMem_slots (h : r.count < N) : r.tail ∉ r.slots := by
  intro hmem
  obtain ⟨i, hi, e⟩ := List.mem_map.1 hmem
  rw [r.tail_eq] at e
  exact slot_ne (List.mem_range.1 hi) h e

theorem slots_push (x : α) (h : r.count < N) : (r.push x h).slots = r.slots ++ [r.tail] := by
  change (List.range (r.count + 1)).map (fun i => (r.head + i) % N) = _
  rw [List.range_succ, List.map_append, List.map_singleton, ← r.tail_eq]
  rfl

theorem slots_pop (h : 0 < r.count) : r.slots = r.head :: (r.pop h).slots := by
  obtain ⟨n, hn⟩ : ∃ n, r.count = n + 1 := ⟨r.count - 1, by omega⟩
  have hcount : (r.pop h).count = n := by
    change r.count - 1 = n
    omega
  unfold slots
  rw [hcount, hn, List.range_succ_eq_map, List.map_cons, List.map_map]
  congr 1
  · exact Nat.mod_eq_of_lt r.head_lt
  · apply List.map_congr_left
    intro i _
    change (r.head + (i + 1)) % N = ((r.head + 1) % N + i) % N
    rw [Nat.mod_add_mod]
    congr 1
    omega

end Ring

end AuraOS.Lib
