import AuraOS.Kernel.Core

/-!
# What the string helpers compute

A C string is read up to its first NUL (`CStr.text`), and the string in a buffer up to its first NUL or
to its end (`str`).  In these terms `strncpyK` stores the first `n - 1` characters of a string, and
`strncmpK` returns `0` exactly if the first `n` characters of two strings agree.
-/

namespace AuraOS.Kernel

open AuraOS.Lib

/-- The characters of the string at `a` from index `i` on, at most `n` of them. -/
def chars (a : ℕ → UInt8) : ℕ → ℕ → List UInt8
  | _, 0 => []
  | i, n + 1 => if a i = 0 then [] else a i :: chars a (i + 1) n

/-- The string in a buffer. -/
def str {m : ℕ} (b : Buf m) : List UInt8 := chars b.rd 0 m

/-- The characters of a string, without what stands behind a NUL. -/
def CStr.text (s : CStr) : List UInt8 := s.takeWhile (· ≠ 0)

section Chars

variable {a b : ℕ → UInt8} {i n k : ℕ}

@[simp] theorem chars_zero : chars a i 0 = [] := rfl

theorem chars_of_nul (h : a i = 0) : chars a i n = [] := by
  cases n with
  | zero => rfl
  | succ n => simp [chars, h]

theorem chars_of_ne (h : a i ≠ 0) : chars a i (n + 1) = a i :: chars a (i + 1) n := by
  simp [chars, h]

theorem zero_notMem_chars : 0 ∉ chars a i n := by
  induction n generalizing i with
  | zero => simp
  | succ n ih =>
    by_cases h : a i = 0
    · simp [chars_of_nul h]
    · simp [chars_of_ne h, Ne.symm h, ih]

/-- The characters read one by one. -/
theorem map_range_chars :
    (List.range (chars a i n).length).map (fun j => a (i + j)) = chars a i n := by
  induction n generalizing i with
  | zero => rfl
  | succ n ih =>
    by_cases h : a i = 0
    · simp [chars_of_nul h]
    · rw [chars_of_ne h, List.length_cons, List.range_succ_eq_map, List.map_cons, List.map_map]
      have hshift : (fun j => a (i + j)) ∘ Nat.succ = fun j => a (i + 1 + j) := by
        funext j
        simp [Nat.add_assoc, Nat.add_comm 1 j]
      rw [hshift, ih, Nat.add_zero]

/-- **The comparing loop** compares the characters up to the bound. -/
theorem strncmpLoop_eq_zero_iff : strncmpLoop a b i n = 0 ↔ chars a i n = chars b i n := by
  induction n generalizing i with
  | zero => simp [strncmpLoop]
  | succ n ih =>
    unfold strncmpLoop
    by_cases hab : a i = b i
    · rw [if_neg (not_not.2 hab)]
      by_cases h : a i = 0
      · rw [if_pos h, chars_of_nul h, chars_of_nul (hab ▸ h)]
        simp
      · rw [if_neg h, ih, chars_of_ne h, chars_of_ne (hab ▸ h), hab]
        simp
    · rw [if_pos hab]
      have hne : (a i).toNat ≠ (b i).toNat := fun e => hab (UInt8.toNat.inj e)
      constructor
      · intro h
        omega
      · intro h
        by_cases ha : a i = 0
        · rw [chars_of_nul ha] at h
          by_cases hb : b i = 0
          · exact absurd (ha.trans hb.symm) hab
          · simp [chars_of_ne hb] at h
        · rw [chars_of_ne ha] at h
          by_cases hb : b i = 0
          · simp [chars_of_nul hb] at h
          · rw [chars_of_ne hb] at h
            exact absurd (List.cons.inj h).1 hab

/-- `strncmpK` returns `0` exactly if the first `n` characters agree. -/
theorem strncmpK_eq_zero_iff : strncmpK a b n = 0 ↔ chars a 0 n = chars b 0 n :=
  strncmpLoop_eq_zero_iff

end Chars

section Strings

variable {m n i : ℕ} {s : CStr} {c : UInt8} {dst b : Buf m}

@[simp] theorem CStr.text_nil : CStr.text [] = [] := rfl

theorem CStr.text_cons_zero : CStr.text (0 :: s) = [] := rfl

theorem CStr.text_cons (h : c ≠ 0) : CStr.text (c :: s) = c :: s.text := by
  simp [CStr.text, h]

theorem CStr.zero_notMem_text (s : CStr) : 0 ∉ s.text := by
  intro h
  have hall : s.text.all (· ≠ 0) = true := List.all_takeWhile
  simpa using List.all_eq_true.1 hall 0 h

/-- A string without NUL bytes is its own text. -/
theorem CStr.text_eq_self (h : 0 ∉ s) : s.text = s := by
  induction s with
  | nil => rfl
  | cons c s ih =>
    simp only [List.mem_cons, not_or] at h
    rw [CStr.text_cons (Ne.symm h.1), ih h.2]

theorem chars_chr (s : CStr) (n : ℕ) : chars s.chr 0 n = s.text.take n := by
  have key : ∀ n i, chars s.chr i n = (CStr.text (s.drop i)).take n := by
    intro n
    induction n with
    | zero => simp
    | succ n ih =>
      intro i
      have hchr : s.chr i = (s.drop i).headD 0 := by
        simp [CStr.chr, List.getD_eq_getElem?_getD, List.headD_eq_head?_getD, List.head?_drop]
      cases hd : s.drop i with
      | nil =>
        rw [hd] at hchr
        rw [chars_of_nul hchr]
        simp
      | cons c r =>
        rw [hd] at hchr
        change s.chr i = c at hchr
        by_cases h : c = 0
        · rw [chars_of_nul (hchr.trans h), h, CStr.text_cons_zero]
          simp
        · have hr : s.drop (i + 1) = r := by rw [← List.drop_drop, hd, List.drop_one, List.tail_cons]
          rw [chars_of_ne (hchr ▸ h), ih, hr, hchr, CStr.text_cons h, List.take_succ_cons]
  simpa using key n 0

theorem zero_notMem_str : 0 ∉ str b := zero_notMem_chars

/-- `strlenK` is the length of the string in the buffer. -/
@[simp] theorem strlenK_eq (b : Buf m) : strlenK b = (str b).length := by
  have key : ∀ k n, strlenLoop b k n = n + (chars b.rd n k).length := by
    intro k
    induction k with
    | zero => simp [strlenLoop]
    | succ k ih =>
      intro n
      by_cases h : b.rd n = 0
      · simp [strlenLoop, h, chars_of_nul h]
      · simp [strlenLoop, h, chars_of_ne h, ih]
        omega
  exact (key m 0).trans (Nat.zero_add _)

theorem map_range_strlenK (b : Buf m) : (List.range (strlenK b)).map b.rd = str b := by
  have h := map_range_chars (a := b.rd) (i := 0) (n := m)
  simp only [Nat.zero_add] at h
  rw [strlenK_eq]
  exact h

/-- **The copying loop** writes the rest of the string at `i`, and nothing below. -/
theorem strncpyLoop_spec (hn : n ≤ m) (hi : i < n) :
    chars (strncpyLoop n s i dst).rd i (m - i) = s.text.take (n - 1 - i) ∧
      ∀ j < i, (strncpyLoop n s i dst).rd j = dst.rd j := by
  induction s generalizing i dst with
  | nil =>
    refine ⟨?_, fun j hj => ?_⟩
    · unfold strncpyLoop
      rw [chars_of_nul ((Buf.rd_wr dst (by omega) i 0).trans (if_pos rfl))]
      simp
    · exact (Buf.rd_wr dst (by omega) j 0).trans (if_neg (by omega))
  | cons c s ih =>
    unfold strncpyLoop
    by_cases h : i + 1 < n ∧ c ≠ 0
    · obtain ⟨hlt, hc⟩ := h
      rw [if_pos ⟨hlt, hc⟩]
      obtain ⟨hchars, hbelow⟩ := @ih _ (dst.wr i c) hlt
      have hrd : (strncpyLoop n s (i + 1) (dst.wr i c)).rd i = c := by
        rw [hbelow i (by omega), Buf.rd_wr dst (by omega), if_pos rfl]
      refine ⟨?_, fun j hj => ?_⟩
      · rw [show m - i = m - (i + 1) + 1 by omega, chars_of_ne (by rwa [hrd]), hchars, hrd,
          CStr.text_cons hc, show n - 1 - i = n - 1 - (i + 1) + 1 by omega, List.take_succ_cons]
      · rw [hbelow j (by omega), Buf.rd_wr dst (by omega), if_neg (by omega)]
    · rw [if_neg h]
      refine ⟨?_, fun j hj => ?_⟩
      · rw [chars_of_nul ((Buf.rd_wr dst (by omega) i 0).trans (if_pos rfl))]
        by_cases hc : c = 0
        · rw [hc, CStr.text_cons_zero]
          simp
        · have : n - 1 - i = 0 := by
            have : ¬i + 1 < n := fun hlt => h ⟨hlt, hc⟩
            omega
          rw [this]
          simp
      · exact (Buf.rd_wr dst (by omega) j 0).trans (if_neg (by omega))

/-- `strncpyK` stores the first `n - 1` characters. -/
theorem str_strncpyK (h0 : 0 < n) (hn : n ≤ m) : str (strncpyK dst s n) = s.text.take (n - 1) :=
  (strncpyLoop_spec hn h0).1

/-! ### What stands behind a NUL -/

@[simp] theorem CStr.text_text (s : CStr) : CStr.text s.text = s.text := CStr.text_eq_self s.zero_notMem_text

theorem strncpyLoop_text (n : ℕ) (s : CStr) (i : ℕ) (dst : Buf m) :
    strncpyLoop n s.text i dst = strncpyLoop n s i dst := by
  induction s generalizing i dst with
  | nil => rfl
  | cons c s ih =>
    by_cases hc : c = 0
    · subst hc
      simp [CStr.text_cons_zero, strncpyLoop]
    · rw [CStr.text_cons hc]
      unfold strncpyLoop
      rw [ih]

/-- The helpers read no further than to the NUL. -/
theorem strncpyK_text (dst : Buf m) (s : CStr) (n : ℕ) : strncpyK dst s.text n = strncpyK dst s n :=
  strncpyLoop_text n s 0 dst

theorem strncmpK_text (a : ℕ → UInt8) (s : CStr) (n : ℕ) :
    strncmpK a (CStr.chr s.text) n = 0 ↔ strncmpK a s.chr n = 0 := by
  rw [strncmpK_eq_zero_iff, strncmpK_eq_zero_iff, chars_chr, chars_chr, CStr.text_text]

end Strings

end AuraOS.Kernel
