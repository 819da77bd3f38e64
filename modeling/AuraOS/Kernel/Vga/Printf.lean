import AuraOS.Kernel.Vga.Print

/-!
# Formatted output

`render` is what a format should print, and `printfLoop_spec` says that the loop of `vga_printf` prints it
and reads no byte behind the terminating NUL, unless a percent sign stands directly in front of the NUL: then
the `switch` takes the NUL for a specifier and the loop goes on behind it (`mem_reads_of_dangling`).  In a
format whose last percent signs are `%%` pairs there is no such sign (`dangling_iff`).
-/

namespace AuraOS.Kernel.Vga

open AuraOS.Lib

/-! ### What a format prints -/

/-- The decimal notation of an integer. -/
def decimalInt (z : ℤ) : List UInt8 := if z < 0 then 45 :: decimal z.natAbs else decimal z.natAbs

/-- What the specifier `spec` prints, and the arguments that it leaves; `none` if there is no argument of
its type. -/
def renderSpec : UInt8 → List Arg → Option (List UInt8 × List Arg)
  | 99, .int v :: args => some ([v.toUInt32.toUInt8], args)
  | 115, .str v :: args => some (CStr.text (v.getD [40, 110, 117, 108, 108, 41]), args)
  | 100, .int v :: args => some (decimalInt v.toInt, args)
  | 117, .uint v :: args => some (decimal v.toNat, args)
  | 120, .uint v :: args => some (hexadecimal v.toNat, args)
  | 88, .uint v :: args => some (hexadecimal v.toNat, args)
  | 37, args => some ([37], args)
  | spec, args =>
    if spec = 99 ∨ spec = 115 ∨ spec = 100 ∨ spec = 117 ∨ spec = 120 ∨ spec = 88 then none
    else some ([37, spec], args)

/-- What the format `fmt` prints. -/
def render : List UInt8 → List Arg → Option (List UInt8)
  | [], _ => some []
  | [c], _ => some [c]
  | c :: d :: fmt, args =>
    if c = 37 then (renderSpec d args).bind fun (out, args) => (render fmt args).map (out ++ ·)
    else (render (d :: fmt) args).map (c :: ·)

/-- A percent sign that is not the second of a pair ends the format. -/
def dangling : List UInt8 → Bool
  | [] => false
  | [c] => c = 37
  | c :: d :: fmt => if c = 37 then dangling fmt else dangling (d :: fmt)

/-- The number of percent signs at the end of the format. -/
def lastPercents (fmt : List UInt8) : ℕ := (fmt.reverse.takeWhile (· = 37)).length

section Percents

variable {c d : UInt8} {fmt : List UInt8} {args : List Arg}

theorem render_of_ne (h : c ≠ 37) : render (c :: fmt) args = (render fmt args).map (c :: ·) := by
  cases fmt with
  | nil => rfl
  | cons d fmt => rw [render, if_neg h]

theorem render_percent : render (37 :: d :: fmt) args =
    (renderSpec d args).bind fun (out, args) => (render fmt args).map (out ++ ·) := by
  rw [render, if_pos rfl]

theorem dangling_of_ne (h : c ≠ 37) : dangling (c :: fmt) = dangling fmt := by
  cases fmt with
  | nil => simp [dangling, h]
  | cons d fmt => rw [dangling, if_neg h]

theorem dangling_percent : dangling (37 :: d :: fmt) = dangling fmt := by
  rw [dangling, if_pos rfl]

/-- One more character in front counts if all others do. -/
theorem lastPercents_cons : lastPercents (c :: fmt) =
    if lastPercents fmt = fmt.length ∧ c = 37 then fmt.length + 1 else lastPercents fmt := by
  unfold lastPercents
  rw [List.reverse_cons, List.takeWhile_append, List.length_reverse]
  by_cases hall : (fmt.reverse.takeWhile (· = 37)).length = fmt.length
  · rw [if_pos hall]
    by_cases hc : c = 37
    · rw [if_pos ⟨hall, hc⟩, List.length_append, List.length_reverse]
      simp [hc]
    · rw [if_neg fun h => hc h.2, hall]
      simp [hc]
  · rw [if_neg hall, if_neg fun h => hall h.1]

/-- **The last percent sign is in no pair** exactly if the number of percent signs at the end is odd. -/
theorem dangling_iff : ∀ fmt : List UInt8, dangling fmt = true ↔ lastPercents fmt % 2 = 1
  | [] => by simp [dangling, lastPercents]
  | [c] => by
    by_cases hc : c = 37 <;> simp [dangling, lastPercents, hc]
  | c :: d :: fmt => by
    have ihd := dangling_iff (d :: fmt)
    have ih := dangling_iff fmt
    unfold dangling
    by_cases hc : c = 37
    · rw [if_pos hc, ih, lastPercents_cons, lastPercents_cons, List.length_cons]
      by_cases hall : lastPercents fmt = fmt.length
      · by_cases hd : d = 37
        · simp only [hall, hd, hc, and_self, if_true]
          omega
        · simp only [hd, and_false, if_false]
          rw [if_neg (by omega)]
      · simp only [hall, false_and, if_false]
        have hle : lastPercents fmt ≤ fmt.length := by
          have := (List.takeWhile_prefix (l := fmt.reverse) (· = 37)).length_le
          rwa [List.length_reverse] at this
        rw [if_neg (by omega)]
    · rw [if_neg hc, ihd, lastPercents_cons (c := c), if_neg fun h => hc h.2]

end Percents

/-! ### The conversions -/

section Convert

variable {v : Int32}

theorem natAbs_toInt_of_nonneg (h : ¬v < 0) : v.toUInt32.toNat = v.toInt.natAbs := by
  have hlt := v.toBitVec.isLt
  have hint := BitVec.toInt_eq_toNat_cond v.toBitVec
  rw [Int32.toInt_toBitVec, Int32.toNat_toBitVec] at hint
  rw [Int32.toNat_toBitVec] at hlt
  rw [Int32.lt_iff_toInt_lt] at h
  change ¬v.toInt < 0 at h
  split at hint <;> omega

/-- The negation is right for the smallest `int`, too. -/
theorem natAbs_toInt_of_neg (h : v < 0) : (-v).toUInt32.toNat = v.toInt.natAbs := by
  have hlt := v.toBitVec.isLt
  have hint := BitVec.toInt_eq_toNat_cond v.toBitVec
  have hneg := BitVec.toNat_neg v.toBitVec
  rw [← Int32.toBitVec_neg, Int32.toNat_toBitVec, Int32.toNat_toBitVec] at hneg
  rw [Int32.toInt_toBitVec, Int32.toNat_toBitVec] at hint
  rw [Int32.toNat_toBitVec] at hlt
  rw [Int32.lt_iff_toInt_lt] at h
  change v.toInt < 0 at h
  split at hint <;> omega

theorem renderSpec_of_unknown {spec : UInt8} (h : spec ≠ 99 ∧ spec ≠ 115 ∧ spec ≠ 100 ∧ spec ≠ 117 ∧
    spec ≠ 120 ∧ spec ≠ 88 ∧ spec ≠ 37) (args : List Arg) :
    renderSpec spec args = some ([37, spec], args) := by
  obtain ⟨h1, h2, h3, h4, h5, h6, h7⟩ := h
  unfold renderSpec
  split <;> simp_all

/-- **The `switch`** prints what the specifier should print. -/
theorem convert_eq (buf : Buf decBuf) (spec : UInt8) (args : List Arg) (s : Screen) :
    convert buf spec args s = (renderSpec spec args).map fun (out, args) => (args, emit out s) := by
  unfold convert
  by_cases hc : spec = 99
  · subst hc
    rcases args with _ | ⟨v | v | v, args⟩ <;> rfl
  by_cases hs : spec = 115
  · subst hs
    rcases args with _ | ⟨v | v | v, args⟩ <;> try rfl
    exact congrArg (fun t => some (args, t)) (vgaPrint_eq _ s)
  by_cases hd : spec = 100
  · subst hd
    rcases args with _ | ⟨v | v | v, args⟩ <;> try rfl
    by_cases hneg : v < 0
    · have hint : v.toInt < 0 := Int32.lt_iff_toInt_lt.1 hneg
      simp [renderSpec, decimalInt, hneg, hint, vgaPrintDec_eq, natAbs_toInt_of_neg hneg, -Int32.toUInt32_neg]
    · have hint : ¬v.toInt < 0 := fun h => hneg (Int32.lt_iff_toInt_lt.2 h)
      simp [renderSpec, decimalInt, hneg, hint, vgaPrintDec_eq, natAbs_toInt_of_nonneg hneg]
  by_cases hu : spec = 117
  · subst hu
    rcases args with _ | ⟨v | v | v, args⟩ <;> try rfl
    simp [renderSpec, vgaPrintDec_eq]
  by_cases hx : spec = 120 ∨ spec = 88
  · rcases hx with rfl | rfl
    · rcases args with _ | ⟨v | v | v, args⟩ <;> try rfl
      simp [renderSpec, vgaPrintHex_eq]
    · rcases args with _ | ⟨v | v | v, args⟩ <;> try rfl
      simp [renderSpec, vgaPrintHex_eq]
  by_cases hp : spec = 37
  · subst hp
    rfl
  · rw [if_neg hc, if_neg hs, if_neg hd, if_neg hu, if_neg hx, if_neg hp,
      renderSpec_of_unknown ⟨hc, hs, hd, hu, fun e => hx (Or.inl e), fun e => hx (Or.inr e), hp⟩]
    rfl

end Convert

/-! ### The loop -/

section Loop

variable {buf : Buf decBuf} {fmt : ℕ → UInt8} {n : ℕ}

/-- **The loop prints the rest of the format and reads up to its NUL**, unless a percent sign dangles. -/
theorem printfLoop_spec (hn : fmt n = 0) (hfmt : ∀ j < n, fmt j ≠ 0) :
    ∀ (k i fuel : ℕ) (args : List Arg) (out : List UInt8) (reads : List ℕ) (s : Screen), i + k = n → k < fuel →
      render (chars fmt i k) args = some out → dangling (chars fmt i k) = false →
      ∃ rs, printfLoop buf fmt fuel i args reads s = some (reads ++ rs, emit out s) ∧ ∀ j ∈ rs, j ≤ n := by
  intro k
  induction k using Nat.strong_induction_on with
  | _ k ih =>
    intro i fuel args out reads s hi hfuel hout hdang
    obtain ⟨fuel, rfl⟩ : ∃ f, fuel = f + 1 := ⟨fuel - 1, by omega⟩
    unfold printfLoop
    rcases k with _ | k
    · -- the terminating NUL
      obtain rfl : i = n := by omega
      cases hout
      exact ⟨[i], by rw [if_pos hn]; rfl, by simp⟩
    have hne := hfmt i (by omega)
    rw [chars_of_ne hne] at hout hdang
    rw [if_neg hne]
    by_cases hpct : fmt i = 37
    · rw [hpct] at hout hdang
      rcases k with _ | k
      · cases hdang
      · -- a specifier follows
        have hspec := hfmt (i + 1) (by omega)
        rw [chars_of_ne hspec, render_percent, Option.bind_eq_some_iff] at hout
        rw [chars_of_ne hspec, dangling_percent] at hdang
        obtain ⟨⟨out₁, args'⟩, hspec, hrest⟩ := hout
        obtain ⟨out₂, hout₂, rfl⟩ := Option.map_eq_some_iff.1 hrest
        obtain ⟨rs, hloop, hle⟩ := ih k (by omega) (i + 2) fuel args' out₂ (reads ++ [i, i + 1]) (emit out₁ s)
          (by omega) (by omega) hout₂ hdang
        refine ⟨[i, i + 1] ++ rs, ?_, fun j hj => ?_⟩
        · rw [if_neg (not_not.2 hpct), convert_eq, hspec, Option.map_some]
          dsimp only
          rw [hloop, List.append_assoc, emit_append]
        · rcases List.mem_append.1 hj with hj | hj
          · simp only [List.mem_cons, List.not_mem_nil, or_false] at hj
            omega
          · exact hle j hj
    · -- a character of its own
      rw [render_of_ne hpct, Option.map_eq_some_iff] at hout
      rw [dangling_of_ne hpct] at hdang
      obtain ⟨out', hout', rfl⟩ := hout
      obtain ⟨rs, hloop, hle⟩ := ih k (by omega) (i + 1) fuel args out' (reads ++ [i]) (vgaPutchar (fmt i) s)
        (by omega) (by omega) hout' hdang
      refine ⟨i :: rs, ?_, fun j hj => ?_⟩
      · rw [if_pos hpct, hloop, List.append_assoc, emit_cons]
        rfl
      · rcases List.mem_cons.1 hj with rfl | hj
        · omega
        · exact hle j hj

/-- A run of the loop reads the byte it starts from, and keeps the reads before it. -/
theorem mem_reads : ∀ (fuel i : ℕ) (args : List Arg) (reads : List ℕ) (s : Screen) (r : List ℕ × Screen),
    printfLoop buf fmt fuel i args reads s = some r → i ∈ r.1 ∧ ∀ j ∈ reads, j ∈ r.1 := by
  intro fuel
  induction fuel with
  | zero => exact fun _ _ _ _ _ h => nomatch h
  | succ fuel ih =>
    intro i args reads s r h
    unfold printfLoop at h
    split at h
    · cases h
      exact ⟨by simp, fun j hj => by simp [hj]⟩
    · split at h
      · obtain ⟨-, hmem⟩ := ih _ _ _ _ _ h
        exact ⟨hmem i (by simp), fun j hj => hmem j (by simp [hj])⟩
      · split at h
        · cases h
        · obtain ⟨-, hmem⟩ := ih _ _ _ _ _ h
          exact ⟨hmem i (by simp), fun j hj => hmem j (by simp [hj])⟩

/-- **After a dangling percent sign the loop goes on behind the NUL.** -/
theorem mem_reads_of_dangling (hfmt : ∀ j < n, fmt j ≠ 0) :
    ∀ (k i fuel : ℕ) (args : List Arg) (reads : List ℕ) (s : Screen) (r : List ℕ × Screen), i + k = n →
      dangling (chars fmt i k) = true → printfLoop buf fmt fuel i args reads s = some r → n + 1 ∈ r.1 := by
  intro k
  induction k using Nat.strong_induction_on with
  | _ k ih =>
    intro i fuel args reads s r hi hdang h
    rcases k with _ | k
    · cases hdang
    rcases fuel with _ | fuel
    · cases h
    have hne := hfmt i (by omega)
    rw [chars_of_ne hne] at hdang
    rw [printfLoop, if_neg hne] at h
    by_cases hpct : fmt i = 37
    · rw [hpct] at hdang
      rw [if_neg (not_not.2 hpct)] at h
      split at h
      · cases h
      · rcases k with _ | k
        · have hi' : i + 2 = n + 1 := by omega
          exact hi' ▸ (mem_reads _ _ _ _ _ _ h).1
        · rw [chars_of_ne (hfmt (i + 1) (by omega)), dangling_percent] at hdang
          exact ih k (by omega) (i + 2) _ _ _ _ _ (by omega) hdang h
    · rw [if_pos hpct] at h
      rw [dangling_of_ne hpct] at hdang
      exact ih k (by omega) (i + 1) _ _ _ _ _ (by omega) hdang h

end Loop

/-- **`vgaPrintf` consumes exactly its format**: for a format of `n` characters and a NUL, and arguments
that its conversions can take, it returns after it has printed what it should and has read no byte behind the
NUL, exactly if the number of percent signs in front of the NUL is even. -/
theorem vgaPrintf_consumes_iff (buf : Buf decBuf) {fmt : ℕ → UInt8} {n : ℕ} (hn : fmt n = 0)
    (hfmt : ∀ j < n, fmt j ≠ 0) {args : List Arg} {out : List UInt8}
    (hout : render (chars fmt 0 n) args = some out) (s : Screen) :
    (∃ fuel reads, vgaPrintf buf (some fmt) fuel args s = some (reads, emit out s) ∧ ∀ j ∈ reads, j ≤ n) ↔
      lastPercents (chars fmt 0 n) % 2 = 0 := by
  have hdang := dangling_iff (chars fmt 0 n)
  constructor
  · rintro ⟨fuel, reads, h, hle⟩
    by_contra hodd
    have hmem := mem_reads_of_dangling hfmt n 0 fuel args [] s _ (by omega) (hdang.2 (by omega)) h
    have := hle _ hmem
    omega
  · intro heven
    have hfalse : dangling (chars fmt 0 n) = false := by
      rw [Bool.eq_false_iff, ne_eq, hdang]
      omega
    obtain ⟨rs, h, hle⟩ := @printfLoop_spec buf _ _ hn hfmt n 0 (n + 1) args out [] s (by omega) (by omega)
      hout hfalse
    exact ⟨n + 1, rs, h, hle⟩

/-- The format `%d%%` with the smallest `int`. -/
theorem vgaPrintf_consumes_iff_percent :
    (∃ fuel reads, vgaPrintf (.tab _ fun _ => 0) (some (CStr.chr [37, 100, 37, 37])) fuel [.int Int32.minValue]
      zeroVga = some (reads, emit ([45] ++ decimal 2147483648 ++ [37]) zeroVga) ∧ ∀ j ∈ reads, j ≤ 4) ↔
      lastPercents (chars (CStr.chr [37, 100, 37, 37]) 0 4) % 2 = 0 :=
  @vgaPrintf_consumes_iff _ (CStr.chr [37, 100, 37, 37]) 4 rfl (by decide) _ _ rfl zeroVga

/-- **The format `100%`** needs no argument, but no run reads it only up to its NUL. -/
theorem printf_percent_reads_behind :
    render (chars (CStr.chr [49, 48, 48, 37]) 0 4) [] = some [49, 48, 48, 37] ∧
      ¬∃ fuel reads s, vgaPrintf (.tab _ fun _ => 0) (some (CStr.chr [49, 48, 48, 37])) fuel [] zeroVga =
        some (reads, s) ∧ ∀ j ∈ reads, j ≤ 4 := by
  refine ⟨rfl, ?_⟩
  rintro ⟨fuel, reads, s, h, hle⟩
  have hmem := @mem_reads_of_dangling _ (CStr.chr [49, 48, 48, 37]) 4 (by decide) 4 0 fuel [] []
    zeroVga _ (by omega) rfl h
  have := hle _ hmem
  omega

end AuraOS.Kernel.Vga
