import AuraOS.Kernel.Vga.Screen
import Mathlib.Data.List.GetD
import Mathlib.Data.Nat.Digits.Lemmas

/-!
# Numbers on the screen

`vga_print_dec` fills a buffer with the digits of the value from the last one on and puts them in reverse.
`decFill_spec` says that there is room for all digits of a number below `10 ^ n` in `n` bytes, so that the
ten digits of a 32 bit value fit; `vgaPrintDec_eq` that the characters are the decimal notation
(`decimal`), which `readDecimal` reads back.
-/

namespace AuraOS.Kernel.Vga

open AuraOS.Lib

/-- The character of a decimal digit. -/
def digitChar (d : ℕ) : UInt8 := UInt8.ofNat (48 + d)

/-- The decimal notation of a number. -/
def decimal (n : ℕ) : List UInt8 := if n = 0 then [48] else (Nat.digits 10 n).reverse.map digitChar

/-- The number that some decimal digits denote. -/
def readDecimal (ds : List UInt8) : ℕ := ds.foldl (fun n c => 10 * n + (c.toNat - 48)) 0

/-- The notation of a 32 bit value in eight hexadecimal digits. -/
def hexadecimal (n : ℕ) : List UInt8 :=
  [48, 120] ++ (List.range 8).reverse.map fun k => hex.getD (n / 16 ^ k % 16) 0

/-! ### The decimal notation -/

section Decimal

variable {n d : ℕ}

theorem toNat_digitChar (h : d < 10) : (digitChar d).toNat = 48 + d := by
  unfold digitChar
  rw [UInt8.toNat_ofNat']
  omega

theorem decimal_of_ne_zero (h : n ≠ 0) : decimal n = (Nat.digits 10 n).reverse.map digitChar := if_neg h

/-- The characters are digits. -/
theorem decimal_range (n : ℕ) : ∀ c ∈ decimal n, 48 ≤ c.toNat ∧ c.toNat ≤ 57 := by
  intro c hc
  by_cases h : n = 0
  · subst h
    rw [decimal, if_pos rfl, List.mem_singleton] at hc
    subst hc
    decide
  · rw [decimal_of_ne_zero h, List.mem_map] at hc
    obtain ⟨d, hd, rfl⟩ := hc
    have hlt : d < 10 := Nat.digits_lt_base (by omega) (List.mem_reverse.1 hd)
    rw [toNat_digitChar hlt]
    omega

theorem decimal_ne_nil (n : ℕ) : decimal n ≠ [] := by
  by_cases h : n = 0
  · simp [decimal, h]
  · simp [decimal_of_ne_zero h, Nat.digits_ne_nil_iff_ne_zero.2 h]

/-- **No leading zero**, but for the number zero. -/
theorem head?_decimal (h : (decimal n).head? = some 48) : decimal n = [48] := by
  by_cases h0 : n = 0
  · simp [decimal, h0]
  · have hne : Nat.digits 10 n ≠ [] := Nat.digits_ne_nil_iff_ne_zero.2 h0
    have hlast := Nat.getLast_digit_ne_zero 10 h0
    have hlt : (Nat.digits 10 n).getLast hne < 10 := Nat.digits_lt_base (by omega) (List.getLast_mem hne)
    rw [decimal_of_ne_zero h0, List.head?_map, List.head?_reverse, List.getLast?_eq_some_getLast hne,
      Option.map_some, Option.some.injEq] at h
    have := toNat_digitChar hlt
    rw [h] at this
    change 48 = _ at this
    omega

/-- **Reading the notation** gives the number. -/
theorem readDecimal_decimal (n : ℕ) : readDecimal (decimal n) = n := by
  by_cases h : n = 0
  · subst h
    rfl
  · have key : ∀ ds : List ℕ, (∀ d ∈ ds, d < 10) →
        readDecimal (ds.reverse.map digitChar) = Nat.ofDigits 10 ds := by
      intro ds hds
      unfold readDecimal
      induction ds with
      | nil => rfl
      | cons d ds ih =>
        rw [List.reverse_cons, List.map_append, List.foldl_append,
          ih fun e he => hds e (List.mem_cons_of_mem d he), Nat.ofDigits_cons]
        simp only [List.map_cons, List.map_nil, List.foldl_cons, List.foldl_nil]
        rw [toNat_digitChar (hds d List.mem_cons_self), Nat.add_sub_cancel_left, Nat.add_comm]
    rw [decimal_of_ne_zero h, key _ fun d => Nat.digits_lt_base (by omega), Nat.ofDigits_digits]

end Decimal

/-! ### The buffer -/

section Fill

variable {n : ℕ} {val : UInt32} {buf b : Buf decBuf}

/-- The digits of `m` stand in the buffer from index `i` on, the last one first. -/
def HoldsDigits (b : Buf decBuf) (i m : ℕ) : Prop :=
  ∀ j < (Nat.digits 10 m).length, b.rd (i + j) = digitChar ((Nat.digits 10 m).getD j 0)

/-- **The filling loop** stores the digits and leaves what is in front of them alone. -/
theorem decFill_spec (hn : n ≤ decBuf) (h : val.toNat < 10 ^ n) :
    ∃ b, decFill n val buf = some (decBuf - n + (Nat.digits 10 val.toNat).length, b) ∧
      HoldsDigits b (decBuf - n) val.toNat ∧ ∀ j < decBuf - n, b.rd j = buf.rd j := by
  induction n generalizing val buf with
  | zero =>
    have h0 : val = 0 := UInt32.toNat.inj (by simpa using h)
    subst h0
    exact ⟨buf, by simp [decFill], by simp [HoldsDigits], fun _ _ => rfl⟩
  | succ n ih =>
    unfold decFill
    by_cases hpos : val > 0
    · have hval : 0 < val.toNat := UInt32.lt_iff_toNat_lt.1 hpos
      have hdiv : (val / 10).toNat = val.toNat / 10 := UInt32.toNat_div val 10
      have hmod : (48 + (val % 10).toUInt8 : UInt8) = digitChar (val.toNat % 10) := by
        apply UInt8.toNat.inj
        rw [toNat_digitChar (by omega), UInt8.toNat_add, UInt32.toNat_toUInt8, UInt32.toNat_mod]
        change (48 + val.toNat % 10 % 256) % 256 = _
        omega
      have hlt : (val / 10).toNat < 10 ^ n := by
        rw [hdiv, Nat.div_lt_iff_lt_mul (by omega), ← Nat.pow_succ]
        exact h
      have hdigits := Nat.digits_def' (show 1 < 10 by omega) hval
      obtain ⟨b, hb, hat, hbelow⟩ := @ih _ (buf.wr (decBuf - (n + 1)) (48 + (val % 10).toUInt8)) (by omega) hlt
      rw [if_pos hpos]
      refine ⟨b, ?_, fun j hj => ?_, fun j hj => ?_⟩
      · dsimp only
        rw [hb, hdigits, List.length_cons, hdiv]
        congr 2
        omega
      · rw [hdigits] at hj ⊢
        rw [List.length_cons] at hj
        cases j with
        | zero =>
          rw [List.getD_cons_zero, Nat.add_zero, hbelow _ (by omega), Buf.rd_wr _ (by omega), if_pos rfl,
            hmod]
        | succ j =>
          have hnext := hat j (by rw [hdiv]; omega)
          rw [List.getD_cons_succ, ← hdiv, ← hnext]
          congr 1
          omega
      · rw [hbelow j (by omega), Buf.rd_wr _ (by omega), if_neg (by omega)]
    · have h0 : val.toNat = 0 := by
        rw [gt_iff_lt, UInt32.lt_iff_toNat_lt] at hpos
        change ¬0 < val.toNat at hpos
        omega
      rw [if_neg hpos, h0]
      exact ⟨buf, by simp, by simp [HoldsDigits], fun _ _ => rfl⟩

theorem decPut_eq (b : Buf decBuf) (i : ℕ) (s : Screen) : decPut b i s = emit ((List.range i).reverse.map b.rd) s := by
  induction i generalizing s with
  | zero => rfl
  | succ i ih =>
    rw [decPut, ih, List.range_succ, List.reverse_append, List.reverse_singleton, List.singleton_append,
      List.map_cons, emit_cons]

theorem HoldsDigits.map_range {m : ℕ} (h : HoldsDigits b 0 m) :
    (List.range (Nat.digits 10 m).length).map b.rd = (Nat.digits 10 m).map digitChar := by
  refine List.ext_getElem (by simp) fun i hi hi' => ?_
  rw [List.length_map, List.length_range] at hi
  have hat := h i hi
  rw [Nat.zero_add, List.getD_eq_getElem _ _ hi] at hat
  rw [List.getElem_map, List.getElem_map, List.getElem_range, hat]

/-- The ten digits of a 32 bit value fit. -/
theorem decFill_le (val : UInt32) (buf : Buf decBuf) : ∃ i b, decFill decBuf val buf = some (i, b) ∧ i ≤ 10 ∧
    i = (Nat.digits 10 val.toNat).length ∧ HoldsDigits b 0 val.toNat := by
  have hval : val.toNat < 10 ^ 10 := Nat.lt_trans val.toNat_lt (by decide)
  obtain ⟨b, hb, hat, -⟩ := @decFill_spec decBuf val buf (Nat.le_refl _)
    (Nat.lt_trans hval (by decide))
  rw [Nat.sub_self, Nat.zero_add] at hb
  rw [Nat.sub_self] at hat
  exact ⟨_, b, hb, (Nat.digits_length_le_iff (by omega) _).2 hval, rfl, hat⟩

/-- **`vgaPrintDec`** puts the decimal notation, and its buffer is large enough. -/
theorem vgaPrintDec_eq (buf : Buf decBuf) (val : UInt32) (s : Screen) :
    vgaPrintDec buf val s = some (emit (decimal val.toNat) s) := by
  unfold vgaPrintDec
  by_cases h : val = 0
  · subst h
    rfl
  · have h0 : val.toNat ≠ 0 := fun e => h (UInt32.toNat.inj e)
    obtain ⟨i, b, hb, -, rfl, hat⟩ := decFill_le val buf
    have hput : decPut b (Nat.digits 10 val.toNat).length s = emit (decimal val.toNat) s := by
      rw [decPut_eq, decimal_of_ne_zero h0, List.map_reverse, hat.map_range, List.map_reverse]
    rw [if_neg h, hb, ← hput]
    rfl

/-- **`vgaPrintHex`** puts eight hexadecimal digits. -/
theorem vgaPrintHex_eq (val : UInt32) (s : Screen) : vgaPrintHex val s = emit (hexadecimal val.toNat) s := by
  have hdigit : ∀ n < 8, hex.chr ((val >>> UInt32.ofNat (4 * n)) &&& 0xF).toNat =
      hex.getD (val.toNat / 16 ^ n % 16) 0 := by
    intro n hn
    have hshift : ((val >>> UInt32.ofNat (4 * n)) &&& 0xF).toNat = val.toNat / 16 ^ n % 16 := by
      rw [UInt32.toNat_and, UInt32.toNat_shiftRight]
      refine (Nat.and_two_pow_sub_one_eq_mod _ 4).trans ?_
      rw [Nat.shiftRight_eq_div_pow, UInt32.toNat_ofNat', Nat.mod_eq_of_lt (show 4 * n < 2 ^ 32 by omega),
        Nat.mod_eq_of_lt (show 4 * n < 32 by omega), Nat.pow_mul]
    rw [hshift]
    rfl
  have key : ∀ n ≤ 8, ∀ s, hexLoop val n s =
      emit ((List.range n).reverse.map fun k => hex.getD (val.toNat / 16 ^ k % 16) 0) s := by
    intro n
    induction n with
    | zero => exact fun _ s => rfl
    | succ n ih =>
      intro hn s
      rw [hexLoop, ih (by omega), hdigit n (by omega), List.range_succ, List.reverse_append,
        List.reverse_singleton, List.singleton_append, List.map_cons, emit_cons]
  unfold vgaPrintHex hexadecimal
  rw [key 8 (Nat.le_refl 8), emit_append]
  rfl

/-- **Decimal output is canonical**: at most ten characters are stored in the buffer of twelve, and what is
put is a sequence of digits without a leading zero that reads as the value. -/
theorem vgaPrintDec_canonical (buf : Buf decBuf) (val : UInt32) :
    (∃ i b, decFill decBuf val buf = some (i, b) ∧ i ≤ 10) ∧
    ∃ ds : List UInt8, (∀ s, vgaPrintDec buf val s = some (emit ds s)) ∧ ds ≠ [] ∧
      (∀ c ∈ ds, 48 ≤ c.toNat ∧ c.toNat ≤ 57) ∧ (ds.head? = some 48 → ds = [48]) ∧
      readDecimal ds = val.toNat := by
  obtain ⟨i, b, hb, hle, -⟩ := decFill_le val buf
  exact ⟨⟨i, b, hb, hle⟩, decimal val.toNat, vgaPrintDec_eq buf val, decimal_ne_nil _, decimal_range _,
    head?_decimal, readDecimal_decimal _⟩

end Fill

end AuraOS.Kernel.Vga
