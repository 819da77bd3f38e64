import AuraOS.Env.Fat12.Store
import AuraOS.Lib.Memory
import Mathlib.Data.List.Forall2
import Mathlib.Data.List.GetD

/-!
# The 8.3 form of a name

* `nameToFat83At` is `name_to_fat83` on the memory behind its pointer `dst`; `nameToFat83At_apply`: it
  stores the eleven bytes of `nameToFat83` and touches nothing else, whatever the name;
* `ShortName` is a valid 8.3 name by its two parts, and `ShortName.rd_nameToFat83` gives the field as
  the padded upper-case parts;
* `ShortName.nameToFat83_eq_iff`: the fields of two valid names agree exactly if the names agree up to
  letter case (`SameName`).
-/

namespace AuraOS.Env.Fat12

open AuraOS.Lib AuraOS.Kernel

/-! ### The field in memory -/

/-- The loop of `nameToFat83At`, writing at `dst[di]`. -/
def nameLoopAt (dst : ℕ) : CStr → ℕ → Mem → Mem
  | [], _, m => m
  | c :: src, di, m =>
    if c ≠ 0 ∧ di < 11 then
      if c = 46 then nameLoopAt dst src 8 m
      else if di < 11 then nameLoopAt dst src (di + 1) (Function.update m (dst + di) (toUpper c))
      else nameLoopAt dst src di m
    else m

/-- `name_to_fat83` with `dst` in memory. -/
def nameToFat83At (src : CStr) (dst : ℕ) (m : Mem) : Mem := nameLoopAt dst src 0 (m.memsetK dst 32 11)

section Memory

variable {dst : ℕ} {m m₀ : Mem}

/-- The eleven bytes at `dst` are those of the field `b`, and the others those of `m₀`. -/
def FieldAt (dst : ℕ) (m₀ : Mem) (b : Name83) (m : Mem) : Prop :=
  ∀ x, m x = if dst ≤ x ∧ x < dst + 11 then b.rd (x - dst) else m₀ x

theorem FieldAt.update {b : Name83} (h : FieldAt dst m₀ b m) {di : ℕ} (hdi : di < 11) (c : UInt8) :
    FieldAt dst m₀ (b.wr di c) (Function.update m (dst + di) c) := by
  intro x
  rw [Buf.rd_wr _ hdi]
  by_cases hx : x = dst + di
  · subst hx
    rw [Function.update_self, if_pos ⟨by omega, by omega⟩, if_pos (by omega)]
  · rw [Function.update_of_ne hx, h x]
    by_cases hin : dst ≤ x ∧ x < dst + 11
    · rw [if_pos hin, if_pos hin, if_neg (by omega)]
    · rw [if_neg hin, if_neg hin]

/-- **The loop writes inside the field only**, at every index it runs through. -/
theorem FieldAt.nameLoopAt (src : CStr) {b : Name83} {di : ℕ} (h : FieldAt dst m₀ b m) :
    FieldAt dst m₀ (nameLoop src di b) (nameLoopAt dst src di m) := by
  induction src generalizing b di m with
  | nil => exact h
  | cons c src ih =>
    unfold nameLoop Fat12.nameLoopAt
    by_cases hgo : c ≠ 0 ∧ di < 11
    swap
    · rw [if_neg hgo, if_neg hgo]
      exact h
    rw [if_pos hgo, if_pos hgo]
    by_cases hdot : c = 46
    · rw [if_pos hdot, if_pos hdot]
      exact ih h
    · rw [if_neg hdot, if_neg hdot, if_pos hgo.2]
      exact ih (h.update hgo.2 _)

/-- The field of spaces the loop starts from. -/
theorem fieldAt_memsetK (dst : ℕ) (m : Mem) : FieldAt dst m (.tab 11 fun _ => 32) (m.memsetK dst 32 11) := by
  intro x
  by_cases hin : dst ≤ x ∧ x < dst + 11
  · rw [Mem.memsetK_apply_of_mem 32 11 dst hin, if_pos hin, Buf.rd_tab _ (by omega)]
  · rw [Mem.memsetK_apply 32 11 dst (by omega), if_neg hin]

/-- `nameToFat83At` stores the field at `dst` and leaves every other byte alone. -/
theorem nameToFat83At_apply (src : CStr) (dst : ℕ) (m : Mem) (x : ℕ) :
    nameToFat83At src dst m x =
      if dst ≤ x ∧ x < dst + 11 then (nameToFat83 src).rd (x - dst) else m x :=
  (fieldAt_memsetK dst m).nameLoopAt src x

end Memory

/-! ### Upper case -/

/-- Two characters that are equal up to ASCII letter case. -/
def SameLetter (c d : UInt8) : Prop :=
  c = d ∨ (97 ≤ c.toNat ∧ c.toNat ≤ 122 ∧ d.toNat + 32 = c.toNat) ∨
    (97 ≤ d.toNat ∧ d.toNat ≤ 122 ∧ c.toNat + 32 = d.toNat)

instance (c d : UInt8) : Decidable (SameLetter c d) := inferInstanceAs (Decidable (_ ∨ _))

/-- Two strings that are equal up to ASCII letter case. -/
def SameName (a b : CStr) : Prop := List.Forall₂ SameLetter a b

theorem toNat_toUpper (c : UInt8) :
    (toUpper c).toNat = if 97 ≤ c.toNat ∧ c.toNat ≤ 122 then c.toNat - 32 else c.toNat := by
  have hiff : (97 ≤ c ∧ c ≤ 122) ↔ 97 ≤ c.toNat ∧ c.toNat ≤ 122 := by
    rw [UInt8.le_iff_toNat_le, UInt8.le_iff_toNat_le]
    rfl
  unfold toUpper
  by_cases h : 97 ≤ c.toNat ∧ c.toNat ≤ 122
  · rw [if_pos (hiff.2 h), if_pos h, UInt8.toNat_add, UInt8.toNat_sub]
    simp only [UInt8.reduceToNat]
    omega
  · rw [if_neg (fun h' => h (hiff.1 h')), if_neg h]

/-- **`toUpper` identifies exactly the characters that are equal up to case.** -/
theorem toUpper_inj {c d : UInt8} : toUpper c = toUpper d ↔ SameLetter c d := by
  unfold SameLetter
  rw [← UInt8.toNat_inj, ← UInt8.toNat_inj, toNat_toUpper, toNat_toUpper]
  split <;> split <;> omega

theorem map_toUpper_inj {a b : CStr} : a.map toUpper = b.map toUpper ↔ SameName a b := by
  unfold SameName
  rw [← List.forall₂_eq_eq_eq, List.forall₂_map_left_iff, List.forall₂_map_right_iff]
  simp only [toUpper_inj]

@[simp] theorem toUpper_toUpper (c : UInt8) : toUpper (toUpper c) = toUpper c := by
  apply UInt8.toNat.inj
  rw [toNat_toUpper (toUpper c), toNat_toUpper c]
  by_cases h : 97 ≤ c.toNat ∧ c.toNat ≤ 122
  · rw [if_pos h, if_neg (by omega)]
  · rw [if_neg h, if_neg h]

theorem toUpper_eq_zero_iff {c : UInt8} : toUpper c = 0 ↔ c = 0 := by
  constructor
  · intro h
    by_contra hc
    exact toUpper_ne_zero hc h
  · rintro rfl
    rfl

theorem toUpper_eq_dot_iff {c : UInt8} : toUpper c = 46 ↔ c = 46 := by
  constructor
  · intro h
    by_contra hc
    exact toUpper_ne_dot hc h
  · rintro rfl
    rfl

theorem toUpper_ne_space {c : UInt8} (h : c ≠ 32) : toUpper c ≠ 32 := by
  rcases toUpper_cases c with e | ⟨h1, -⟩
  · rwa [e]
  · intro e
    simp [e] at h1

theorem nameLoop_map_toUpper (src : CStr) (di : ℕ) (dst : Name83) :
    nameLoop (src.map toUpper) di dst = nameLoop src di dst := by
  induction src generalizing di dst with
  | nil => rfl
  | cons c src ih =>
    simp only [List.map_cons, nameLoop, ih, toUpper_toUpper, ne_eq, toUpper_eq_zero_iff, toUpper_eq_dot_iff]

/-- The field does not depend on the case of the letters, for any string. -/
theorem nameToFat83_map_toUpper (src : CStr) : nameToFat83 (src.map toUpper) = nameToFat83 src :=
  nameLoop_map_toUpper src 0 _

/-! ### Valid names -/

/-- A character that may stand in a part of an 8.3 name. -/
def NameChar (c : UInt8) : Prop := c ≠ 0 ∧ c ≠ 46 ∧ c ≠ 32

/-- A valid 8.3 name: a base, and an extension that may be missing. -/
structure ShortName where
  base : List UInt8
  ext : List UInt8
  base_pos : 0 < base.length
  base_le : base.length ≤ 8
  ext_le : ext.length ≤ 3
  base_char : ∀ c ∈ base, NameChar c
  ext_char : ∀ c ∈ ext, NameChar c

/-- The name as a string; the dot is there if there is an extension. -/
def ShortName.text (s : ShortName) : CStr := if s.ext = [] then s.base else s.base ++ 46 :: s.ext

/-- A string that is a valid 8.3 name. -/
def Valid83 (a : CStr) : Prop := ∃ s : ShortName, s.text = a

section Loop

variable {part : List UInt8} {di : ℕ} (b : Name83)

/-- A part of a name is stored from `di` on, and the loop goes on behind it. -/
theorem nameLoop_part (rest : CStr) (hpart : ∀ c ∈ part, NameChar c) (hlen : di + part.length ≤ 11) :
    nameLoop (part ++ rest) di b =
      nameLoop rest (di + part.length) (b.blit di part.length fun i => (part.map toUpper).getD i 32) := by
  induction part generalizing di b with
  | nil =>
    have hb : b.blit di 0 (fun i => ([].map toUpper).getD i 32) = b :=
      Buf.ext_rd fun i hi => by rw [Buf.rd_blit _ _ _ _ hi, if_neg (by omega)]
    simp only [List.nil_append, List.length_nil, Nat.add_zero, hb]
  | cons c part ih =>
    simp only [List.length_cons] at hlen
    obtain ⟨h0, hdot, -⟩ := hpart c List.mem_cons_self
    rw [List.cons_append, nameLoop, if_pos ⟨h0, by omega⟩, if_neg hdot,
      ih _ (fun x hx => hpart x (List.mem_cons_of_mem c hx)) (by omega), List.length_cons,
      show di + 1 + part.length = di + (part.length + 1) by omega]
    congr 1
    refine Buf.ext_rd fun i hi => ?_
    rw [Buf.rd_blit _ _ _ _ hi, Buf.rd_blit _ _ _ _ hi, Buf.rd_wr _ (by omega)]
    by_cases hi0 : i = di
    · subst hi0
      rw [if_neg (by omega), if_pos rfl, if_pos (by omega), Nat.sub_self, List.map_cons, List.getD_cons_zero]
    · by_cases hin : di + 1 ≤ i ∧ i < di + 1 + part.length
      · rw [if_pos hin, if_pos (by omega), show i - di = i - (di + 1) + 1 by omega, List.map_cons,
          List.getD_cons_succ]
      · rw [if_neg hin, if_neg hi0, if_neg (by omega)]

/-- A part on a run of `w` spaces at `off`. -/
theorem rd_blit_part {b : Name83} {off w : ℕ} (hb : ∀ i, off ≤ i → i < off + w → b.rd i = 32)
    (hw : part.length ≤ w) {i : ℕ} (hi : i < 11) :
    (b.blit off part.length fun k => (part.map toUpper).getD k 32).rd i =
      if off ≤ i ∧ i < off + w then (part.map toUpper).getD (i - off) 32 else b.rd i := by
  rw [Buf.rd_blit _ _ _ _ hi]
  by_cases hin : off ≤ i ∧ i < off + part.length
  · rw [if_pos hin, if_pos ⟨hin.1, by omega⟩]
  · rw [if_neg hin]
    by_cases hin' : off ≤ i ∧ i < off + w
    · have hlen : (part.map toUpper).length ≤ i - off := by
        rw [List.length_map]
        omega
      rw [if_pos hin', hb i hin'.1 hin'.2, List.getD_eq_default _ _ hlen]
    · rw [if_neg hin']

end Loop

/-! ### Injectivity -/

theorem space_notMem_map {l : List UInt8} (h : ∀ c ∈ l, NameChar c) : 32 ∉ l.map toUpper := by
  rw [List.mem_map]
  rintro ⟨c, hc, e⟩
  exact toUpper_ne_space (h c hc).2.2 e

/-- Two lists without the padding character are equal if they are equal with padding. -/
theorem eq_of_getD_eq {l l' : List UInt8} {n : ℕ} {d : UInt8} (h : ∀ i < n, l.getD i d = l'.getD i d)
    (hl : l.length ≤ n) (hl' : l'.length ≤ n) (hd : d ∉ l) (hd' : d ∉ l') : l = l' := by
  have hmem : ∀ {l : List UInt8} {i : ℕ}, d ∉ l → (i < l.length ↔ l.getD i d ≠ d) := by
    intro l i hd
    constructor
    · intro hi e
      rw [List.getD_eq_getElem _ _ hi] at e
      exact hd (e ▸ List.getElem_mem hi)
    · intro e
      by_contra hi
      exact e (List.getD_eq_default _ _ (by omega))
  have hlen : ∀ i, i < l.length ↔ i < l'.length := by
    intro i
    by_cases hi : i < n
    · rw [hmem hd, hmem hd', h i hi]
    · omega
  refine List.ext_getElem ?_ fun i hi hi' => ?_
  · have h1 := hlen l.length
    have h2 := hlen l'.length
    omega
  · have := h i (by omega)
    rwa [List.getD_eq_getElem _ _ hi, List.getD_eq_getElem _ _ hi'] at this

namespace ShortName

variable (s t : ShortName)

/-- **The field of a valid name**: its two parts in upper case, each on spaces. -/
theorem rd_nameToFat83 {i : ℕ} (hi : i < 11) :
    (nameToFat83 s.text).rd i =
      if i < 8 then (s.base.map toUpper).getD i 32 else (s.ext.map toUpper).getD (i - 8) 32 := by
  have hpos := s.base_pos
  have hle := s.base_le
  have hext := s.ext_le
  have hspace : ∀ i, 0 ≤ i → i < 0 + 8 → (Buf.tab 11 fun _ => 32).rd i = 32 :=
    fun i _ h => Buf.rd_tab _ (by omega)
  have hbase := fun i (hi : i < 11) => rd_blit_part hspace hle hi
  simp only [Nat.zero_le, true_and, Nat.zero_add, Nat.sub_zero] at hbase
  unfold nameToFat83 text
  by_cases he : s.ext = []
  · have h := nameLoop_part (.tab 11 fun _ => 32) [] s.base_char (show 0 + _ ≤ 11 by omega)
    rw [List.append_nil, nameLoop] at h
    rw [if_pos he, h, hbase i hi, he, List.map_nil, List.getD_nil, Buf.rd_tab _ hi]
  · rw [if_neg he, nameLoop_part _ _ s.base_char (by omega), Nat.zero_add, nameLoop,
      if_pos ⟨by decide, by omega⟩, if_pos rfl]
    have h := nameLoop_part ((Buf.tab 11 fun _ => 32).blit 0 s.base.length
      fun i => (s.base.map toUpper).getD i 32) [] s.ext_char (show 8 + _ ≤ 11 by omega)
    rw [List.append_nil, nameLoop] at h
    have hrest : ∀ i, 8 ≤ i → i < 8 + 3 → ((Buf.tab 11 fun _ => 32).blit 0 s.base.length
        fun i => (s.base.map toUpper).getD i 32).rd i = 32 := fun i h8 h11 => by
      rw [hbase i (by omega), if_neg (by omega), Buf.rd_tab _ h11]
    rw [h, rd_blit_part hrest hext hi, hbase i hi]
    by_cases h8 : i < 8
    · rw [if_neg (by omega)]
      simp only [if_pos h8]
    · rw [if_pos ⟨by omega, by omega⟩, if_neg h8]

/-- The base and the extension can be read off the field. -/
theorem map_toUpper_of_nameToFat83_eq (h : nameToFat83 s.text = nameToFat83 t.text) :
    s.base.map toUpper = t.base.map toUpper ∧ s.ext.map toUpper = t.ext.map toUpper := by
  have hrd : ∀ i < 11, (nameToFat83 s.text).rd i = (nameToFat83 t.text).rd i := fun i _ => by rw [h]
  constructor
  · refine eq_of_getD_eq (fun i hi => ?_) (by simpa using s.base_le) (by simpa using t.base_le)
      (space_notMem_map s.base_char) (space_notMem_map t.base_char)
    have hi' := hrd i (by omega)
    rwa [s.rd_nameToFat83 (by omega), t.rd_nameToFat83 (by omega), if_pos hi, if_pos hi] at hi'
  · refine eq_of_getD_eq (fun i hi => ?_) (by simpa using s.ext_le) (by simpa using t.ext_le)
      (space_notMem_map s.ext_char) (space_notMem_map t.ext_char)
    have hi' := hrd (8 + i) (by omega)
    rwa [s.rd_nameToFat83 (by omega), t.rd_nameToFat83 (by omega), if_neg (by omega),
      if_neg (by omega), Nat.add_sub_cancel_left] at hi'

/-- **The fields of two valid names agree exactly if the names agree up to letter case.** -/
theorem nameToFat83_eq_iff : nameToFat83 s.text = nameToFat83 t.text ↔ SameName s.text t.text := by
  rw [← map_toUpper_inj]
  constructor
  · intro h
    obtain ⟨hbase, hext⟩ := s.map_toUpper_of_nameToFat83_eq t h
    have hnil : s.ext = [] ↔ t.ext = [] := by
      rw [← List.map_eq_nil_iff (f := toUpper), hext, List.map_eq_nil_iff]
    unfold text
    by_cases he : s.ext = []
    · rw [if_pos he, if_pos (hnil.1 he), hbase]
    · rw [if_neg he, if_neg (fun h => he (hnil.2 h)), List.map_append, List.map_append, List.map_cons,
        List.map_cons, hbase, hext]
  · intro h
    rw [← nameToFat83_map_toUpper s.text, h, nameToFat83_map_toUpper]

end ShortName

/-- **8.3 names do not collide**: two valid names have the same field exactly if they are equal up to
letter case; the call writes its eleven bytes and no other byte of the memory; and the field is the
upper-case base on eight spaces followed by the upper-case extension on three. -/
theorem nameToFat83_names83 :
    (∀ a b, Valid83 a → Valid83 b → (nameToFat83 a = nameToFat83 b ↔ SameName a b)) ∧
    (∀ a, Valid83 a → ∀ (dst : ℕ) (m : Mem) (x : ℕ),
      nameToFat83At a dst m x =
        if dst ≤ x ∧ x < dst + 11 then (nameToFat83 a).rd (x - dst) else m x) ∧
    ∀ s : ShortName,
      (∀ i < 8, (nameToFat83 s.text).rd i = (s.base.map toUpper).getD i 32) ∧
      ∀ i < 3, (nameToFat83 s.text).rd (8 + i) = (s.ext.map toUpper).getD i 32 := by
  refine ⟨?_, fun a _ => nameToFat83At_apply a, fun s => ⟨fun i hi => ?_, fun i hi => ?_⟩⟩
  · rintro a b ⟨s, rfl⟩ ⟨t, rfl⟩
    exact s.nameToFat83_eq_iff t
  · rw [s.rd_nameToFat83 (by omega), if_pos hi]
  · rw [s.rd_nameToFat83 (by omega), if_neg (by omega), Nat.add_sub_cancel_left]

/-- The name `a.env`. -/
def aEnv : ShortName where
  base := [97]
  ext := [101, 110, 118]
  base_pos := by simp
  base_le := by simp
  ext_le := by simp
  base_char := by simp [NameChar]
  ext_char := by simp [NameChar]

/-- The name `A.Env`. -/
def upperEnv : ShortName where
  base := [65]
  ext := [69, 110, 118]
  base_pos := by simp
  base_le := by simp
  ext_le := by simp
  base_char := by simp [NameChar]
  ext_char := by simp [NameChar]

theorem nameToFat83_names83_env :
    (nameToFat83 aEnv.text = nameToFat83 upperEnv.text ↔ SameName aEnv.text upperEnv.text) ∧
      nameToFat83At aEnv.text 100 (fun _ => 7) 111 = 7 ∧ (nameToFat83 aEnv.text).rd 8 = 69 :=
  ⟨nameToFat83_names83.1 _ _ ⟨aEnv, rfl⟩ ⟨upperEnv, rfl⟩,
    (nameToFat83_names83.2.1 _ ⟨aEnv, rfl⟩ 100 (fun _ => 7) 111).trans (if_neg (by omega)),
    ((nameToFat83_names83.2.2 aEnv).2 0 (by omega)).trans rfl⟩

end AuraOS.Env.Fat12
