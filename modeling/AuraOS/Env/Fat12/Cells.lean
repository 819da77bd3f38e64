import AuraOS.Env.Fat12.Defs

/-!
# The packed FAT as a table of 12-bit cells

Two neighbouring entries share a byte.  `next_even` and `next_odd` read an entry off its two bytes
in plain arithmetic, `set_even` and `set_odd` give every byte after a store, and from these
`next_set_self` and `next_set_of_ne`: a store sets its own entry and no other.  `set_set_back` undoes a
store.
-/

namespace AuraOS.Env.Fat12

open AuraOS.Lib

/-! ### Nibbles -/

theorem and_one (c : ℕ) : c &&& 1 = c % 2 := Nat.and_two_pow_sub_one_eq_mod c 1

theorem and_0F (b : ℕ) : b &&& 0x0F = b % 16 := Nat.and_two_pow_sub_one_eq_mod b 4

theorem and_FF (b : ℕ) : b &&& 0xFF = b % 256 := Nat.and_two_pow_sub_one_eq_mod b 8

theorem and_0FFF (b : ℕ) : b &&& 0x0FFF = b % 4096 := Nat.and_two_pow_sub_one_eq_mod b 12

/-- The high nibble of the low byte. -/
theorem and_F0 (b : ℕ) : b &&& 0xF0 = b / 16 % 16 * 16 := and_mask b 4 4

/-- A low and a high nibble make up a byte. -/
theorem or_nibbles (a b : ℕ) : a % 16 ||| b * 16 = a % 16 + b * 16 :=
  or_shift (k := 4) (Nat.mod_lt a (by decide)) b

/-! ### Reading a cell -/

/-- The index of the first byte of the entry of `c`. -/
def cellOff (c : ℕ) : ℕ := c + c / 2

section Read

variable (fat : FatBuf) {c : ℕ}

theorem next_out (h : 3072 ≤ c) : fat12NextCluster fat c = 0xFFF := by
  unfold fat12NextCluster
  rw [if_pos (by omega)]

theorem next_even (h : c < 3072) (h2 : c % 2 = 0) :
    fat12NextCluster fat c =
      (fat.rd (cellOff c)).toNat + (fat.rd (cellOff c + 1)).toNat % 16 * 256 := by
  have h0 : (fat.rd (cellOff c)).toNat < 256 := UInt8.toNat_lt _
  unfold fat12NextCluster
  simp only [and_one, and_0FFF, Nat.shiftLeft_eq]
  rw [if_neg (by omega), if_neg (by omega)]
  change ((fat.rd (cellOff c)).toNat ||| (fat.rd (cellOff c + 1)).toNat * 2 ^ 8) % 4096 = _
  rw [or_shift (show _ < 2 ^ 8 from h0)]
  omega

theorem next_odd (h : c < 3072) (h2 : c % 2 = 1) :
    fat12NextCluster fat c =
      (fat.rd (cellOff c)).toNat / 16 + (fat.rd (cellOff c + 1)).toNat * 16 := by
  have h0 : (fat.rd (cellOff c)).toNat < 256 := UInt8.toNat_lt _
  unfold fat12NextCluster
  simp only [and_one, Nat.shiftLeft_eq, Nat.shiftRight_eq_div_pow]
  rw [if_neg (by omega), if_pos (by omega)]
  change ((fat.rd (cellOff c)).toNat ||| (fat.rd (cellOff c + 1)).toNat * 2 ^ 8) / 2 ^ 4 = _
  rw [or_shift (show _ < 2 ^ 8 from h0)]
  omega

/-- An entry depends on its two bytes only. -/
theorem next_congr {fat fat' : FatBuf} (h0 : fat'.rd (cellOff c) = fat.rd (cellOff c))
    (h1 : fat'.rd (cellOff c + 1) = fat.rd (cellOff c + 1)) :
    fat12NextCluster fat' c = fat12NextCluster fat c := by
  by_cases h : c < 3072
  · rcases Nat.mod_two_eq_zero_or_one c with h2 | h2
    · rw [next_even fat' h h2, next_even fat h h2, h0, h1]
    · rw [next_odd fat' h h2, next_odd fat h h2, h0, h1]
  · rw [next_out fat' (by omega), next_out fat (by omega)]

end Read

/-! ### Storing a cell -/

section Store

variable (fat : FatBuf) {c : ℕ} (v : ℕ)

theorem set_out (h : 3072 ≤ c) : fat12SetCluster fat c v = fat := by
  unfold fat12SetCluster
  rw [if_pos (by omega)]

/-- The two bytes a store at an even cluster writes. -/
theorem set_even (h : c < 3072) (h2 : c % 2 = 0) (i : ℕ) :
    ((fat12SetCluster fat c v).rd i).toNat =
      if i = cellOff c then v % 256
      else if i = cellOff c + 1 then (fat.rd i).toNat / 16 * 16 + v / 256 % 16
      else (fat.rd i).toNat := by
  have hb : ∀ j, (fat.rd j).toNat < 256 := fun j => UInt8.toNat_lt _
  unfold fat12SetCluster
  simp only [and_one, and_FF, and_0F, and_F0, Nat.shiftRight_eq_div_pow]
  rw [if_neg (by omega), if_neg (by omega), Buf.rd_wr _ (by omega), Buf.rd_wr _ (by omega)]
  change (if i = cellOff c + 1 then _ else if i = cellOff c then _ else fat.rd i).toNat = _
  by_cases h1 : i = cellOff c + 1
  · rw [if_pos h1, if_neg (by omega), if_pos h1, UInt8.toNat_ofNat', Nat.or_comm, or_nibbles]
    have := hb i
    rw [h1] at this ⊢
    unfold cellOff at this ⊢
    omega
  · rw [if_neg h1, if_neg h1]
    by_cases h0 : i = cellOff c
    · rw [if_pos h0, if_pos h0, UInt8.toNat_ofNat']
      omega
    · rw [if_neg h0, if_neg h0]

/-- The two bytes a store at an odd cluster writes. -/
theorem set_odd (h : c < 3072) (h2 : c % 2 = 1) (i : ℕ) :
    ((fat12SetCluster fat c v).rd i).toNat =
      if i = cellOff c then (fat.rd i).toNat % 16 + v % 16 * 16
      else if i = cellOff c + 1 then v / 16 % 256
      else (fat.rd i).toNat := by
  unfold fat12SetCluster
  simp only [and_one, and_0F, and_F0, Nat.shiftRight_eq_div_pow, Nat.shiftLeft_eq]
  rw [if_neg (by omega), if_pos (by omega), Buf.rd_wr _ (by omega), Buf.rd_wr _ (by omega)]
  change (if i = cellOff c + 1 then _ else if i = cellOff c then _ else fat.rd i).toNat = _
  by_cases h1 : i = cellOff c + 1
  · rw [if_pos h1, if_neg (by omega), if_pos h1, UInt8.toNat_ofNat']
  · rw [if_neg h1, if_neg h1]
    by_cases h0 : i = cellOff c
    · rw [if_pos h0, if_pos h0, UInt8.toNat_ofNat', or_nibbles]
      rw [h0]
      unfold cellOff
      omega
    · rw [if_neg h0, if_neg h0]

/-- A store leaves every byte outside its two bytes alone. -/
theorem set_rd_of_ne {i : ℕ} (h0 : i ≠ cellOff c) (h1 : i ≠ cellOff c + 1) :
    (fat12SetCluster fat c v).rd i = fat.rd i := by
  by_cases h : c < 3072
  · apply UInt8.toNat.inj
    rcases Nat.mod_two_eq_zero_or_one c with h2 | h2
    · rw [set_even fat v h h2, if_neg h0, if_neg h1]
    · rw [set_odd fat v h h2, if_neg h0, if_neg h1]
  · rw [set_out fat v (by omega)]

/-- **A store sets its own entry.** -/
theorem next_set_self (h : c < 3072) :
    fat12NextCluster (fat12SetCluster fat c v) c = v % 4096 := by
  rcases Nat.mod_two_eq_zero_or_one c with h2 | h2
  · rw [next_even _ h h2, set_even fat v h h2, set_even fat v h h2]
    rw [if_pos rfl, if_neg (by omega), if_pos rfl]
    omega
  · rw [next_odd _ h h2, set_odd fat v h h2, set_odd fat v h h2]
    rw [if_pos rfl, if_neg (by omega), if_pos rfl]
    omega

/-- A store leaves the three nibbles of every other entry alone, also where it shares a byte. -/
theorem set_nibbles_of_ne {d : ℕ} (hd : d ≠ c) :
    (d % 2 = 0 →
      ((fat12SetCluster fat c v).rd (cellOff d)).toNat = (fat.rd (cellOff d)).toNat ∧
      ((fat12SetCluster fat c v).rd (cellOff d + 1)).toNat % 16 =
        (fat.rd (cellOff d + 1)).toNat % 16) ∧
    (d % 2 = 1 →
      ((fat12SetCluster fat c v).rd (cellOff d)).toNat / 16 = (fat.rd (cellOff d)).toNat / 16 ∧
      ((fat12SetCluster fat c v).rd (cellOff d + 1)).toNat = (fat.rd (cellOff d + 1)).toNat) := by
  by_cases h : c < 3072
  swap
  · rw [set_out fat v (by omega)]
    exact ⟨fun _ => ⟨rfl, rfl⟩, fun _ => ⟨rfl, rfl⟩⟩
  have hoff : ∀ x, cellOff x = x + x / 2 := fun x => rfl
  have hb := UInt8.toNat_lt (fat.rd (cellOff d))
  rcases Nat.mod_two_eq_zero_or_one c with h2 | h2
  · rw [set_even fat v h h2, set_even fat v h h2, hoff, hoff]
    refine ⟨fun hd2 => ⟨?_, ?_⟩, fun hd2 => ⟨?_, ?_⟩⟩
    · rw [if_neg (by omega), if_neg (by omega)]
    · rw [if_neg (by omega), if_neg (by omega)]
    · rw [if_neg (by omega)]
      split <;> omega
    · rw [if_neg (by omega), if_neg (by omega)]
  · rw [set_odd fat v h h2, set_odd fat v h h2, hoff, hoff]
    refine ⟨fun hd2 => ⟨?_, ?_⟩, fun hd2 => ⟨?_, ?_⟩⟩
    · rw [if_neg (by omega), if_neg (by omega)]
    · split
      · omega
      · rw [if_neg (by omega)]
    · rw [if_neg (by omega), if_neg (by omega)]
    · rw [if_neg (by omega), if_neg (by omega)]

/-- **A store leaves every other entry alone**, also when only some of its bytes have got to `m`. -/
theorem next_of_partial_set {d : ℕ} (hd : d ≠ c) {m : FatBuf}
    (hm : ∀ i, m.rd i = fat.rd i ∨ m.rd i = (fat12SetCluster fat c v).rd i) :
    fat12NextCluster m d = fat12NextCluster fat d := by
  obtain ⟨heven, hodd⟩ := set_nibbles_of_ne fat v hd
  by_cases h : d < 3072
  swap
  · rw [next_out _ (by omega), next_out _ (by omega)]
  rcases Nat.mod_two_eq_zero_or_one d with h2 | h2
  · obtain ⟨e0, e1⟩ := heven h2
    rw [next_even _ h h2, next_even _ h h2]
    rcases hm (cellOff d) with a | a <;> rcases hm (cellOff d + 1) with b | b <;> rw [a, b] <;> omega
  · obtain ⟨e0, e1⟩ := hodd h2
    rw [next_odd _ h h2, next_odd _ h h2]
    rcases hm (cellOff d) with a | a <;> rcases hm (cellOff d + 1) with b | b <;> rw [a, b] <;> omega

theorem next_set_of_ne {d : ℕ} (hd : d ≠ c) :
    fat12NextCluster (fat12SetCluster fat c v) d = fat12NextCluster fat d :=
  next_of_partial_set fat v hd fun _ => Or.inr rfl

/-- Storing what is there already changes no byte. -/
theorem set_eq_self (h : fat12NextCluster fat c = v % 4096) : fat12SetCluster fat c v = fat := by
  by_cases hc : c < 3072
  swap
  · exact set_out fat v (by omega)
  have hb : ∀ j, (fat.rd j).toNat < 256 := fun j => UInt8.toNat_lt _
  have h0 := hb (cellOff c)
  have h1 := hb (cellOff c + 1)
  refine Buf.ext_rd fun i _ => UInt8.toNat.inj ?_
  rcases Nat.mod_two_eq_zero_or_one c with h2 | h2
  · rw [next_even fat hc h2] at h
    rw [set_even fat v hc h2]
    split
    · subst i
      omega
    · split
      · subst i
        omega
      · rfl
  · rw [next_odd fat hc h2] at h
    rw [set_odd fat v hc h2]
    split
    · subst i
      omega
    · split
      · subst i
        omega
      · rfl

theorem next_set (h : c < 3072) (d : ℕ) :
    fat12NextCluster (fat12SetCluster fat c v) d =
      if d = c then v % 4096 else fat12NextCluster fat d := by
  by_cases hd : d = c
  · rw [if_pos hd, hd, next_set_self fat v h]
  · rw [if_neg hd, next_set_of_ne fat v hd]

/-- **Storing the previous value back restores the buffer**, also the nibble of the neighbour. -/
theorem set_set_back : fat12SetCluster (fat12SetCluster fat c v) c (fat12NextCluster fat c) = fat := by
  by_cases hc : c < 3072
  swap
  · rw [set_out _ _ (by omega), set_out _ _ (by omega)]
  have hb : ∀ j, (fat.rd j).toNat < 256 := fun j => UInt8.toNat_lt _
  have h0 := hb (cellOff c)
  have h1 := hb (cellOff c + 1)
  refine Buf.ext_rd fun i _ => UInt8.toNat.inj ?_
  rcases Nat.mod_two_eq_zero_or_one c with h2 | h2
  · rw [set_even _ _ hc h2, set_even _ _ hc h2, next_even fat hc h2]
    by_cases hi : i = cellOff c
    · subst i
      rw [if_pos rfl]
      omega
    · by_cases hi' : i = cellOff c + 1
      · subst i
        rw [if_neg hi, if_pos rfl, if_neg hi, if_pos rfl]
        omega
      · simp only [if_neg hi, if_neg hi']
  · rw [set_odd _ _ hc h2, set_odd _ _ hc h2, next_odd fat hc h2]
    by_cases hi : i = cellOff c
    · subst i
      rw [if_pos rfl, if_pos rfl]
      omega
    · by_cases hi' : i = cellOff c + 1
      · subst i
        rw [if_neg hi, if_pos rfl]
        omega
      · simp only [if_neg hi, if_neg hi']

end Store

/-- **The packed entries are independent cells**: a store of a 16 bit value sets its own entry to the
low 12 bits, no other entry changes, and storing the old entry again restores every byte.  Behind the
last entry of the buffer a store does nothing and a lookup ends the chain. -/
theorem fat12SetCluster_cells (fat : FatBuf) (v : UInt16) :
    (∀ c < 3072,
      fat12NextCluster (fat12SetCluster fat c v.toNat) c = v.toNat % 4096 ∧
      (∀ d < 3072, d ≠ c →
        fat12NextCluster (fat12SetCluster fat c v.toNat) d = fat12NextCluster fat d) ∧
      fat12SetCluster (fat12SetCluster fat c v.toNat) c (fat12NextCluster fat c) = fat) ∧
    ∀ c, 3072 ≤ c → fat12SetCluster fat c v.toNat = fat ∧ fat12NextCluster fat c = 0xFFF := by
  refine ⟨fun c hc => ⟨?_, fun d _ hd => ?_, ?_⟩, fun c hc => ⟨?_, ?_⟩⟩
  · exact next_set_self fat _ hc
  · exact next_set_of_ne fat _ hd
  · exact set_set_back fat _
  · exact set_out fat _ hc
  · exact next_out fat hc

theorem fat12SetCluster_cells_two :
    fat12NextCluster (fat12SetCluster (.tab 4608 fun _ => 0xFF) 2 0x123) 2 = 0x123 ∧
      fat12NextCluster (fat12SetCluster (.tab 4608 fun _ => 0xFF) 2 0x123) 3 =
        fat12NextCluster (.tab 4608 fun _ => 0xFF) 3 :=
  ⟨((fat12SetCluster_cells _ 0x123).1 2 (by omega)).1,
    ((fat12SetCluster_cells _ 0x123).1 2 (by omega)).2.1 3 (by omega) (by omega)⟩

end AuraOS.Env.Fat12
