import AuraOS.Env.Registry.Defs
import AuraOS.Lib.Assoc
import AuraOS.Lib.Steps

/-!
# The registry as a bounded map

A registry that `env_init` and `env_set` have built holds its variables in its first slots, in the order
in which they were set first (`Represents`).  On this list `env_get` is a lookup, and `env_set` an
assignment as long as the key fits its field.  A longer key is not found under any stored key, so that
every call with it stores its first 15 characters once more, under which it cannot be read back
(`envSet_spec`).  So the registry is a map if and only if no such key is inserted
(`runEnvSet_map_iff`).
-/

namespace AuraOS.Env

open AuraOS.Lib AuraOS.Kernel

/-- Names and values of variables, as strings without NULs. -/
abbrev Vars := List (List UInt8 × List UInt8)

/-- The table holds the variables `l` in its first slots. -/
structure Represents (t : EnvTable) (l : Vars) : Prop where
  length_le : l.length ≤ envMaxVars
  entry : ∀ i < l.length, (t i).set = true ∧ l[i]? = some (str (t i).key, str (t i).value)
  unset : ∀ i < envMaxVars, l.length ≤ i → (t i).set = false
  key_le : ∀ e ∈ l, e.1.length ≤ 15
  value_le : ∀ e ∈ l, e.2.length ≤ 31

section Represents

variable {t t' : EnvTable} {l l₁ l₂ : Vars} {e : List UInt8 × List UInt8} {key value : CStr} {i : ℕ}

/-- An entry is found under a key exactly if it has this key. -/
theorem strncmpK_key_iff {v : EnvVar} (h : (str v.key).length ≤ 15) :
    strncmpK v.key.rd key.chr envKeyLen = 0 ↔ str v.key = key.text := by
  have hstr : chars v.key.rd 0 16 = str v.key := rfl
  change strncmpK v.key.rd key.chr 16 = 0 ↔ _
  rw [strncmpK_eq_zero_iff, chars_chr, hstr]
  constructor
  · intro e
    have hlen : key.text.length ≤ 16 := by
      have := congrArg List.length e
      simp only [List.length_take] at this
      omega
    rwa [List.take_of_length_le hlen] at e
  · intro e
    rw [e, List.take_of_length_le (by rw [← e]; omega)]

theorem Represents.mem_keys_iff (h : Represents t l) {k : List UInt8} :
    k ∈ keys l ↔ ∃ i < l.length, str (t i).key = k := by
  constructor
  · intro hk
    obtain ⟨e, he, rfl⟩ := List.mem_map.1 hk
    obtain ⟨i, hi⟩ := List.mem_iff_getElem?.1 he
    have hlt : i < l.length := (List.getElem?_eq_some_iff.1 hi).1
    refine ⟨i, hlt, ?_⟩
    rw [(h.entry i hlt).2] at hi
    rw [← Option.some.inj hi]
  · rintro ⟨i, hlt, rfl⟩
    exact List.mem_map.2 ⟨_, List.mem_of_getElem? (h.entry i hlt).2, rfl⟩

theorem Represents.key_length (h : Represents t l) (hi : i < l.length) :
    (str (t i).key).length ≤ 15 :=
  h.key_le _ (List.mem_of_getElem? (h.entry i hi).2)

/-- What the search of `env_set` and `env_get` tests. -/
theorem Represents.test_iff (h : Represents t l) (hi : i < envMaxVars) :
    ((t i).set = true ∧ strncmpK (t i).key.rd key.chr envKeyLen = 0) ↔
      i < l.length ∧ str (t i).key = key.text := by
  constructor
  · rintro ⟨hset, hcmp⟩
    have hlt : i < l.length := by
      by_contra hle
      rw [h.unset i hi (by omega)] at hset
      cases hset
    exact ⟨hlt, (strncmpK_key_iff (h.key_length hlt)).1 hcmp⟩
  · rintro ⟨hlt, hkey⟩
    exact ⟨(h.entry i hlt).1, (strncmpK_key_iff (h.key_length hlt)).2 hkey⟩

/-- **The search** finds the first entry with the key. -/
theorem Represents.findVar_spec (h : Represents t l) (key : CStr) :
    (key.text ∉ keys l ∧ findVar key t = none) ∨
      ∃ l₁ w l₂, l = l₁ ++ (key.text, w) :: l₂ ∧ key.text ∉ keys l₁ ∧
        findVar key t = some l₁.length ∧ str (t l₁.length).value = w := by
  have hle := h.length_le
  cases hf : findVar key t with
  | none =>
    refine Or.inl ⟨fun hmem => ?_, rfl⟩
    obtain ⟨i, hi, hkey⟩ := h.mem_keys_iff.1 hmem
    have := first_eq_none_iff.1 hf i (by omega) (by omega)
    simp only [decide_eq_false_iff_not] at this
    exact this ((h.test_iff (by omega)).2 ⟨hi, hkey⟩)
  | some i =>
    obtain ⟨-, hi, htest, hbefore⟩ := first_eq_some_iff.1 hf
    simp only [decide_eq_true_eq] at htest
    obtain ⟨hlt, hkey⟩ := (h.test_iff (by omega)).1 htest
    have hget := (h.entry i hlt).2
    have hlen : (l.take i).length = i := by simp; omega
    have hsplit : l = l.take i ++ (key.text, str (t i).value) :: l.drop (i + 1) := by
      rw [hkey] at hget
      obtain ⟨hlt', hget'⟩ := List.getElem?_eq_some_iff.1 hget
      rw [← hget', List.getElem_cons_drop, List.take_append_drop]
    refine Or.inr ⟨l.take i, str (t i).value, l.drop (i + 1), hsplit, fun hmem => ?_, by rw [hlen], by rw [hlen]⟩
    obtain ⟨e, he, hek⟩ := List.mem_map.1 hmem
    obtain ⟨j, hj⟩ := List.mem_iff_getElem?.1 he
    obtain ⟨hji, hj'⟩ : j < i ∧ l[j]? = some e := by
      rw [List.getElem?_take] at hj
      by_cases hji : j < i
      · exact ⟨hji, by rwa [if_pos hji] at hj⟩
      · rw [if_neg hji] at hj
        cases hj
    have hjl : j < l.length := by omega
    have hnot := hbefore j (by omega) hji
    simp only [decide_eq_false_iff_not] at hnot
    refine hnot ((h.test_iff (by omega)).2 ⟨hjl, ?_⟩)
    rw [(h.entry j hjl).2] at hj'
    rw [← Option.some.inj hj'] at hek
    exact hek

/-- The first free entry is the one behind the last variable. -/
theorem Represents.freeVar_eq (h : Represents t l) :
    freeVar t = if l.length < envMaxVars then some l.length else none := by
  split
  · rename_i hlt
    refine first_eq_some_iff.2 ⟨by omega, by omega, ?_, fun j _ hj => ?_⟩
    · rw [h.unset _ hlt (Nat.le_refl _)]
      rfl
    · rw [(h.entry j hj).1]
      rfl
  · rename_i hge
    refine first_eq_none_iff.2 fun j _ hj => ?_
    rw [(h.entry j (by omega)).1]
    rfl

/-- **`env_get`** is a lookup. -/
theorem Represents.envGet_eq (h : Represents t l) (key : CStr) :
    envGet (some key) t = l.lookup key.text := by
  change (findVar key t).map (fun i => str (t i).value) = _
  rcases h.findVar_spec key with ⟨hmem, hf⟩ | ⟨l₁, w, l₂, rfl, hmem, hf, hw⟩
  · rw [hf, lookup_eq_none_iff_notMem.2 hmem, Option.map_none]
  · rw [hf, lookup_append_of_notMem hmem, List.lookup_cons_self, Option.map_some, hw]

/-- An entry is overwritten. -/
theorem Represents.update (h : Represents t (l₁ ++ e :: l₂)) {v : EnvVar} (hset : v.set = true)
    (hk : (str v.key).length ≤ 15) (hv : (str v.value).length ≤ 31) :
    Represents (Function.update t l₁.length v) (l₁ ++ (str v.key, str v.value) :: l₂) := by
  have hle := h.length_le
  have hent := h.entry
  have hun := h.unset
  simp only [List.length_append, List.length_cons] at hle hent hun
  refine ⟨by simpa using hle, fun i hi => ?_, fun i hi hli => ?_, fun e' he' => ?_, fun e' he' => ?_⟩
  · by_cases hil : i = l₁.length
    · subst hil
      simp [hset]
    · simp only [List.length_append, List.length_cons] at hi
      obtain ⟨h1, h2⟩ := hent i hi
      rw [Function.update_of_ne hil]
      refine ⟨h1, ?_⟩
      rw [← h2]
      rcases Nat.lt_or_gt_of_ne hil with hlt | hgt
      · rw [List.getElem?_append_left hlt, List.getElem?_append_left hlt]
      · rw [List.getElem?_append_right (by omega), List.getElem?_append_right (by omega),
          show i - l₁.length = i - l₁.length - 1 + 1 by omega, List.getElem?_cons_succ,
          List.getElem?_cons_succ]
  · simp only [List.length_append, List.length_cons] at hli
    rw [Function.update_of_ne (by omega)]
    exact hun i hi hli
  · simp only [List.mem_append, List.mem_cons] at he'
    rcases he' with he' | rfl | he'
    · exact h.key_le e' (by simp [he'])
    · exact hk
    · exact h.key_le e' (by simp [he'])
  · simp only [List.mem_append, List.mem_cons] at he'
    rcases he' with he' | rfl | he'
    · exact h.value_le e' (by simp [he'])
    · exact hv
    · exact h.value_le e' (by simp [he'])

/-- A free entry is filled. -/
theorem Represents.push (h : Represents t l) (hlt : l.length < envMaxVars) {v : EnvVar}
    (hset : v.set = true) (hk : (str v.key).length ≤ 15) (hv : (str v.value).length ≤ 31) :
    Represents (Function.update t l.length v) (l ++ [(str v.key, str v.value)]) := by
  refine ⟨by simpa [Nat.succ_le_iff] using hlt, fun i hi => ?_, fun i hi hli => ?_, fun e' he' => ?_, fun e' he' => ?_⟩
  · by_cases hil : i = l.length
    · subst hil
      simp [hset]
    · simp only [List.length_append, List.length_singleton] at hi
      rw [Function.update_of_ne hil, List.getElem?_append_left (by omega)]
      exact h.entry i (by omega)
  · simp only [List.length_append, List.length_singleton] at hli
    rw [Function.update_of_ne (by omega)]
    exact h.unset i hi (by omega)
  · simp only [List.mem_append, List.mem_singleton] at he'
    rcases he' with he' | rfl
    · exact h.key_le e' he'
    · exact hk
  · simp only [List.mem_append, List.mem_singleton] at he'
    rcases he' with he' | rfl
    · exact h.value_le e' he'
    · exact hv

/-- **`env_set`** assigns to a key it finds, inserts the first 15 characters of one it does not find, and
fails on a full table. -/
theorem Represents.envSet_spec (h : Represents t l) (key value : CStr) :
    (key.text ∈ keys l ∧ ∃ t', envSet (some key) (some value) t = (0, t') ∧
      Represents t' (assign key.text (value.text.take 31) l)) ∨
    (key.text ∉ keys l ∧ l.length < envMaxVars ∧
      ∃ t', envSet (some key) (some value) t = (0, t') ∧
        Represents t' (l ++ [(key.text.take 15, value.text.take 31)])) ∨
    (key.text ∉ keys l ∧ l.length = envMaxVars ∧ envSet (some key) (some value) t = (-1, t)) := by
  have hvalue (b : Buf envValLen) : str (strncpyK b value envValLen) = value.text.take 31 :=
    str_strncpyK (by decide) (Nat.le_refl _)
  have hkey (b : Buf envKeyLen) : str (strncpyK b key envKeyLen) = key.text.take 15 :=
    str_strncpyK (by decide) (Nat.le_refl _)
  unfold envSet
  rcases h.findVar_spec key with ⟨hmem, hf⟩ | ⟨l₁, w, l₂, rfl, hmem, hf, hw⟩
  · simp only [hf, h.freeVar_eq]
    by_cases hlt : l.length < envMaxVars
    · refine Or.inr (Or.inl ⟨hmem, hlt, ?_⟩)
      rw [if_pos hlt]
      refine ⟨_, rfl, ?_⟩
      have hpush := h.push hlt
        (v := ⟨strncpyK (t l.length).key key envKeyLen, strncpyK (t l.length).value value envValLen, true⟩)
        rfl (by rw [hkey]; exact List.length_take_le _ _) (by rw [hvalue]; exact List.length_take_le _ _)
      rwa [hkey, hvalue] at hpush
    · refine Or.inr (Or.inr ⟨hmem, ?_, ?_⟩)
      · have := h.length_le
        omega
      · rw [if_neg hlt]
  · simp only [hf]
    refine Or.inl ⟨by simp, _, rfl, ?_⟩
    obtain ⟨hset, hget⟩ := h.entry l₁.length (by simp)
    have hold : str (t l₁.length).key = key.text := by
      rw [List.getElem?_append_right (Nat.le_refl _), Nat.sub_self, List.getElem?_cons_zero] at hget
      exact (Prod.mk.inj (Option.some.inj hget)).1.symm
    have hupdate := h.update (v := { t l₁.length with value := strncpyK (t l₁.length).value value envValLen })
      hset (by rw [hold]; exact h.key_le (key.text, w) (by simp))
      (by rw [hvalue]; exact List.length_take_le _ _)
    rw [hvalue] at hupdate
    rw [assign_append hmem, assign_cons_self, ← hold]
    exact hupdate

/-- `env_set` on the list of variables. -/
def setVar (k v : List UInt8) (l : Vars) : Vars :=
  if k ∈ keys l then assign k (v.take 31) l
  else if l.length < envMaxVars then l ++ [(k.take 15, v.take 31)]
  else l

/-- **The table refines the list.** -/
theorem Represents.envSet (h : Represents t l) (key value : CStr) :
    Represents (envSet (some key) (some value) t).2 (setVar key.text value.text l) := by
  unfold setVar
  rcases h.envSet_spec key value with ⟨hk, t', e, h'⟩ | ⟨hk, hlt, t', e, h'⟩ | ⟨hk, hlen, e⟩
  · rwa [if_pos hk, e]
  · rwa [if_neg hk, if_pos hlt, e]
  · rwa [if_neg hk, if_neg (by omega), e]

end Represents

/-! ### Runs of `env_set` -/

/-- The arguments of a call of `env_set`. -/
structure EnvCall where
  key : CStr
  value : CStr

/-- The call leads from `t` to `t'`. -/
def EnvStep (t : EnvTable) (c : EnvCall) (t' : EnvTable) : Prop :=
  (envSet (some c.key) (some c.value) t).2 = t'

/-- The call works as one on a bounded map. -/
def MapStep (t : EnvTable) (c : EnvCall) (t' : EnvTable) : Prop :=
  let res := (envSet (some c.key) (some c.value) t).1
  (res = 0 → envGet (some c.key) t' = some (c.value.text.take 31) ∧
    ∀ key₂ : CStr, key₂.text ≠ c.key.text → envGet (some key₂) t' = envGet (some key₂) t) ∧
  (res = -1 → t' = t)

/-- No two entries in use have the same key. -/
def KeysDistinct (t : EnvTable) : Prop :=
  ∀ i < envMaxVars, ∀ j < envMaxVars, (t i).set = true → (t j).set = true →
    str (t i).key = str (t j).key → i = j

/-- The key fits its field, or nothing can be inserted. -/
def KeyFits (t : EnvTable) (c : EnvCall) : Prop := c.key.text.length ≤ 15 ∨ freeVar t = none

section Runs

variable {t t' t₀ : EnvTable} {l : Vars} {c : EnvCall} {calls : List EnvCall}

/-- The table after the calls. -/
def setAll (calls : List EnvCall) (t : EnvTable) : EnvTable :=
  calls.foldl (fun t c => (envSet (some c.key) (some c.value) t).2) t

theorem run_setAll (calls : List EnvCall) (t : EnvTable) : Run EnvStep t calls (setAll calls t) := by
  induction calls generalizing t with
  | nil => exact Run.nil t
  | cons c calls ih => exact Run.cons rfl (ih _)

/-- The variables after the calls. -/
def setAllVars (calls : List EnvCall) (l : Vars) : Vars :=
  calls.foldl (fun l c => setVar c.key.text c.value.text l) l

theorem Represents.setAll (h : Represents t l) (calls : List EnvCall) :
    Represents (Env.setAll calls t) (setAllVars calls l) := by
  induction calls generalizing t l with
  | nil => exact h
  | cons c calls ih => exact ih (h.envSet c.key c.value)

/-- The variables that `env_init` sets. -/
def bootVars : Vars := [(envKeyOsName, osName), (envKeyOsVersion, osVersion)]

/-- **`env_init`** leaves the two variables it sets, whatever the table was before. -/
theorem represents_envInit (t : EnvTable) : Represents (envInit t) bootVars := by
  have h0 : Represents (fun i => { t i with set := false }) [] :=
    ⟨by simp, nofun, fun _ _ _ => rfl, nofun, nofun⟩
  exact (h0.envSet envKeyOsName osName).envSet envKeyOsVersion osVersion

theorem Represents.keysDistinct_iff (h : Represents t l) : KeysDistinct t ↔ (keys l).Nodup := by
  have hle := h.length_le
  have hget : ∀ i < l.length, (keys l)[i]? = some (str (t i).key) := fun i hi => by
    rw [List.getElem?_map, (h.entry i hi).2, Option.map_some]
  have hset : ∀ i < envMaxVars, (t i).set = true → i < l.length := fun i hi hs => by
    by_contra hge
    rw [h.unset i hi (by omega)] at hs
    cases hs
  have hlen : (keys l).length = l.length := List.length_map _
  constructor
  · intro hd
    refine List.pairwise_iff_getElem.2 fun i j hi hj hij e => ?_
    have hi' := hget i (by omega)
    have hj' := hget j (by omega)
    rw [List.getElem?_eq_getElem hi] at hi'
    rw [List.getElem?_eq_getElem hj] at hj'
    have hkey : str (t i).key = str (t j).key := by
      rw [← Option.some.inj hi', ← Option.some.inj hj', e]
    have := hd i (by omega) j (by omega) (h.entry i (by omega)).1 (h.entry j (by omega)).1 hkey
    omega
  · intro hn i hi j hj hsi hsj e
    have hli := hset i hi hsi
    refine (List.getElem?_inj (i := i) (by omega) hn).1 ?_
    rw [hget i hli, hget j (hset j hj hsj), e]

theorem run_represents (hr : Run EnvStep (envInit t₀) calls t) : ∃ l, Represents t l := by
  refine hr.invariant (I := fun t => ∃ l, Represents t l) ?_ ⟨_, represents_envInit t₀⟩
  rintro t c t' ⟨l, hl⟩ rfl
  exact ⟨_, hl.envSet c.key c.value⟩

theorem Represents.envStep (h : Represents t l) (hstep : EnvStep t c t') :
    Represents t' (setVar c.key.text c.value.text l) :=
  hstep ▸ h.envSet c.key c.value

/-- A key that does not fit is not found after it was inserted. -/
theorem notMem_keys_insert (h : Represents t l) {k v : List UInt8} (hk : 15 < k.length) :
    k ∉ keys (l ++ [(k.take 15, v)]) := by
  intro hmem
  obtain ⟨e, he, rfl⟩ := List.mem_map.1 hmem
  rw [List.mem_append, List.mem_singleton] at he
  rcases he with he | he
  · have := h.key_le e he
    omega
  · have := congrArg (fun e => e.1.length) he
    simp only [List.length_take] at this
    omega

/-- **One call** works as on a map, and keeps the keys different, exactly if the key fits. -/
theorem mapStep_iff (h : Represents t l) (hd : KeysDistinct t) (hstep : EnvStep t c t') :
    MapStep t c t' ∧ KeysDistinct t' ↔ KeyFits t c := by
  rw [h.keysDistinct_iff] at hd
  unfold MapStep KeyFits
  rw [h.freeVar_eq]
  rcases h.envSet_spec c.key c.value with ⟨hk, u, e, h'⟩ | ⟨hk, hlt, u, e, h'⟩ | ⟨hk, hlen, e⟩
  · -- an existing variable is overwritten
    obtain rfl : u = t' := by rw [← hstep, e]
    have hfit : c.key.text.length ≤ 15 := by
      obtain ⟨e', he', hek⟩ := List.mem_map.1 hk
      exact hek ▸ h.key_le e' he'
    refine ⟨fun _ => Or.inl hfit, fun _ => ⟨⟨fun _ => ⟨?_, fun key₂ hne => ?_⟩, fun hres => ?_⟩, ?_⟩⟩
    · rw [h'.envGet_eq, lookup_assign_self]
    · rw [h'.envGet_eq, h.envGet_eq, lookup_assign_of_ne hne]
    · rw [e] at hres
      cases hres
    · exact h'.keysDistinct_iff.2 (nodup_keys_assign hd)
  · -- a new variable is inserted
    obtain rfl : u = t' := by rw [← hstep, e]
    rw [if_pos hlt]
    constructor
    · rintro ⟨⟨hget, -⟩, -⟩
      by_contra hlong
      have hget := (hget (by rw [e])).1
      rw [h'.envGet_eq, lookup_eq_none_iff_notMem.2 (notMem_keys_insert h (by simpa using hlong))] at hget
      cases hget
    · rintro (hfit | hfull)
      · rw [List.take_of_length_le hfit] at h'
        refine ⟨⟨fun _ => ⟨?_, fun key₂ hne => ?_⟩, fun hres => ?_⟩, ?_⟩
        · rw [h'.envGet_eq, lookup_append_of_notMem hk, List.lookup_cons_self]
        · rw [h'.envGet_eq, h.envGet_eq, lookup_append_of_ne hne]
        · rw [e] at hres
          cases hres
        · have := nodup_keys_assign (k := c.key.text) (v := c.value.text.take 31) hd
          rw [assign_of_notMem hk] at this
          exact h'.keysDistinct_iff.2 this
      · cases hfull
  · -- the table is full
    obtain rfl : t = t' := by rw [← hstep, e]
    rw [if_neg (by omega)]
    refine ⟨fun _ => Or.inr rfl, fun _ => ⟨⟨fun hres => ?_, fun _ => rfl⟩, h.keysDistinct_iff.2 hd⟩⟩
    rw [e] at hres
    cases hres

/-- **The registry is a bounded map** exactly as long as every key fits. -/
theorem runEnvSet_map_iff (t₀ : EnvTable) : KeysDistinct (envInit t₀) ∧
    (Run (fun t c t' => EnvStep t c t' ∧ MapStep t c t' ∧ KeysDistinct t') (envInit t₀) calls t ↔
      Run (fun t c t' => EnvStep t c t' ∧ KeyFits t c) (envInit t₀) calls t) := by
  have h0 := represents_envInit t₀
  have hd0 : KeysDistinct (envInit t₀) := h0.keysDistinct_iff.2 (by decide)
  refine ⟨hd0, Run.congr (I := fun t => (∃ l, Represents t l) ∧ KeysDistinct t) ?_ ?_ ⟨⟨_, h0⟩, hd0⟩⟩
  · rintro t c t' ⟨⟨l, hl⟩, -⟩ ⟨hstep, -, hd'⟩
    exact ⟨⟨_, hl.envStep hstep⟩, hd'⟩
  · rintro t c t' ⟨⟨l, hl⟩, hd⟩
    exact and_congr_right fun hstep => mapStep_iff hl hd hstep

/-- The table before `env_init`. -/
def zeroTable : EnvTable := fun _ => ⟨.tab _ fun _ => 0, .tab _ fun _ => 0, false⟩

/-- A key of 16 characters. -/
def longKey : CStr := List.replicate 16 65

/-- **A long key is lost and doubled**: `env_set` returns `0` for it, `env_get` does not find it, and after
a second call two entries hold its first 15 characters. -/
theorem envSet_longKey :
    let t := (envSet (some longKey) (some [49]) (envInit zeroTable)).2
    let t' := (envSet (some longKey) (some [50]) t).2
    (envSet (some longKey) (some [49]) (envInit zeroTable)).1 = 0 ∧ envGet (some longKey) t = none ∧
      ¬MapStep (envInit zeroTable) ⟨longKey, [49]⟩ t ∧ ¬KeysDistinct t' := by
  intro t t'
  have h : Represents t _ := (represents_envInit zeroTable).envSet longKey [49]
  have h' : Represents t' _ := h.envSet longKey [50]
  have hres : (envSet (some longKey) (some [49]) (envInit zeroTable)).1 = 0 := by decide
  have hget : envGet (some longKey) t = none := by
    rw [h.envGet_eq]
    decide
  refine ⟨hres, hget, fun hmap => ?_, fun hd => ?_⟩
  · have := (hmap.1 hres).1
    rw [hget] at this
    cases this
  · rw [h'.keysDistinct_iff] at hd
    revert hd
    decide

end Runs

end AuraOS.Env
