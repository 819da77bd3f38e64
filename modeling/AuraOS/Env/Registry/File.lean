import AuraOS.Env.Fat12.Atomic
import AuraOS.Env.Registry.Map
import AuraOS.Lib.KeyValue
import Mathlib.Algebra.GroupWithZero.Nat

/-!
# The environment file

`env_save` writes the lines of the longest prefix of the variables that fits in its buffer, and
`env_load` assigns what the lines of the file say, in order.  So a registry with clean keys and values
is read back after a reboot if all of it fits (`envLoad_envSave`).  If it does not, the rest of the
variables is dropped without notice (`envSave_complete_iff`).
-/

namespace AuraOS.Env

open AuraOS.Lib AuraOS.Kernel AuraOS.Env.Fat12

/-! ### What is saved -/

/-- The entries in use. -/
def usedVars (t : EnvTable) : List EnvVar := ((List.range envMaxVars).filter fun i => (t i).set).map t

/-- The length of the file that holds all variables. -/
def totalLen (t : EnvTable) : ℕ := ((usedVars t).map fun v => v.line.length).sum

/-- The variables that fit in the buffer behind `pos` bytes, up to the first one that does not. -/
def fitting : ℕ → Vars → Vars
  | _, [] => []
  | pos, e :: l =>
    if pos + (entryLine 61 10 e).length ≤ 511 then e :: fitting (pos + (entryLine 61 10 e).length) l
    else []

section Save

variable {t : EnvTable} {l : Vars} {pos : ℕ}

theorem EnvVar.line_eq (v : EnvVar) : v.line = entryLine 61 10 (str v.key, str v.value) := by
  unfold EnvVar.line entryLine
  rw [map_range_strlenK, map_range_strlenK]
  simp

theorem length_entryLine (e : List UInt8 × List UInt8) :
    (entryLine 61 10 e).length = e.1.length + e.2.length + 2 := by
  simp [entryLine]
  omega

theorem length_render_fitting (h : pos ≤ 511) :
    pos + (render 61 10 (fitting pos l)).length ≤ 511 := by
  induction l generalizing pos with
  | nil => simpa [fitting] using h
  | cons e l ih =>
    unfold fitting
    split
    · rename_i hfit
      have := ih hfit
      rw [render_cons, List.length_append]
      omega
    · simpa using h

/-- Everything fits, or some entry does not. -/
theorem fitting_eq_self_iff (h : pos ≤ 511) :
    fitting pos l = l ↔ pos + (render 61 10 l).length ≤ 511 := by
  induction l generalizing pos with
  | nil => simpa [fitting] using h
  | cons e l ih =>
    unfold fitting
    rw [render_cons, List.length_append]
    split
    · rename_i hfit
      rw [List.cons.injEq, ih hfit]
      simp [Nat.add_assoc]
    · rename_i hfit
      constructor
      · nofun
      · intro hle
        omega

/-- **The saving loop** writes the variables that fit. -/
theorem saveLoop_eq (h : Represents t l) (n : ℕ) : ∀ i out, i + n = envMaxVars → out.length ≤ 511 →
    saveLoop t n i out = out ++ render 61 10 (fitting out.length (l.drop i)) := by
  have hle := h.length_le
  induction n with
  | zero =>
    intro i out hi _
    rw [List.drop_eq_nil_of_le (by omega)]
    simp [saveLoop, fitting]
  | succ n ih =>
    intro i out hi hout
    unfold saveLoop
    by_cases hlt : i < l.length
    · obtain ⟨hset, hget⟩ := h.entry i hlt
      have hdrop : l.drop i = (str (t i).key, str (t i).value) :: l.drop (i + 1) := by
        rw [List.drop_eq_getElem_cons hlt, (List.getElem?_eq_some_iff.1 hget).2]
      have hlen := length_entryLine (str (t i).key, str (t i).value)
      dsimp only at hlen
      rw [hdrop, hset, strlenK_eq, strlenK_eq]
      unfold fitting
      simp only [Bool.not_true, Bool.false_eq_true, if_false]
      by_cases hfull : out.length < 511
      · rw [if_pos hfull]
        by_cases hfit : out.length + (entryLine 61 10 (str (t i).key, str (t i).value)).length ≤ 511
        · rw [if_neg (by omega), if_pos hfit, ih (i + 1) _ (by omega) (by
            rw [List.length_append, EnvVar.line_eq]
            exact hfit), EnvVar.line_eq, List.length_append, List.append_assoc]
          rfl
        · rw [if_pos (by omega), if_neg hfit]
          simp
      · rw [if_neg hfull, if_neg (by omega)]
        simp
    · have hnil : l.drop i = [] := List.drop_eq_nil_of_le (by omega)
      rw [hnil, h.unset i (by omega) (by omega), ih (i + 1) out (by omega) hout,
        List.drop_eq_nil_of_le (by omega)]
      simp [fitting]

/-- **What `env_save` writes.** -/
theorem Represents.saveBytes_eq (h : Represents t l) : saveBytes t = render 61 10 (fitting 0 l) := by
  unfold saveBytes
  rw [saveLoop_eq h envMaxVars 0 [] rfl (by simp)]
  rfl

/-- The entries in use are the variables of the list. -/
theorem Represents.usedVars_eq (h : Represents t l) :
    (usedVars t).map (fun v => (str v.key, str v.value)) = l := by
  have hrange : (List.range envMaxVars).filter (fun i => (t i).set) = List.range l.length := by
    refine filter_range_lt h.length_le fun i hi => ?_
    by_cases hlt : i < l.length
    · rw [(h.entry i hlt).1, decide_eq_true hlt]
    · rw [h.unset i hi (by omega), decide_eq_false hlt]
  unfold usedVars
  rw [hrange, List.map_map]
  refine List.ext_getElem? fun i => ?_
  by_cases hlt : i < l.length
  · rw [(h.entry i hlt).2]
    simp [hlt]
  · rw [List.getElem?_eq_none (by simpa using hlt), List.getElem?_eq_none (by simpa using hlt)]

theorem Represents.map_line (h : Represents t l) :
    (usedVars t).map EnvVar.line = l.map (entryLine 61 10) := by
  rw [← h.usedVars_eq, List.map_map]
  exact List.map_congr_left fun v _ => v.line_eq

theorem Represents.totalLen_eq (h : Represents t l) : totalLen t = (render 61 10 l).length := by
  have hlines := congrArg (List.map List.length) h.map_line
  rw [List.map_map, List.map_map] at hlines
  unfold totalLen render
  rw [List.length_flatMap]
  exact congrArg List.sum hlines

/-- The file holds every variable exactly if all of them fit. -/
theorem Represents.saveBytes_of_fits (h : Represents t l) (hfit : totalLen t < 512) :
    saveBytes t = render 61 10 l := by
  rw [h.totalLen_eq] at hfit
  rw [h.saveBytes_eq, (fitting_eq_self_iff (by omega)).2 (by omega)]

theorem Represents.length_saveBytes (h : Represents t l) : (saveBytes t).length ≤ 511 := by
  have hlen : 0 + (render 61 10 (fitting 0 l)).length ≤ 511 := length_render_fitting (by omega)
  rw [h.saveBytes_eq]
  omega

end Save

/-! ### What is loaded -/

/-- Assign entries one after the other with `env_set`. -/
def setVars (as l : Vars) : Vars :=
  as.foldl (fun l e => setVar (CStr.text e.1) (CStr.text e.2) l) l

section Load

variable {t : EnvTable} {l m as : Vars} {n : ℕ} {bytes : List UInt8}

/-- The entries that the lines of a text assign, one after the other. -/
def assignLines (text : List UInt8) (t : EnvTable) : EnvTable :=
  (assignments 61 10 text).foldl (fun t e => (envSet (some e.1) (some e.2) t).2) t

theorem takeWhile_key {key : List UInt8} (heq : 61 ∉ key) (hnl : 10 ∉ key) (rest : List UInt8)
    (hrest : ∀ c ∈ rest.head?, c = 61 ∨ c = 10) :
    ((key ++ rest).takeWhile fun c => c ≠ 61 ∧ c ≠ 10) = key ∧
      ((key ++ rest).dropWhile fun c => c ≠ 61 ∧ c ≠ 10) = rest := by
  have hkey : ∀ c ∈ key, decide (c ≠ 61 ∧ c ≠ 10) = true := by
    intro c hc
    apply decide_eq_true
    constructor
    · rintro rfl
      exact heq hc
    · rintro rfl
      exact hnl hc
  rw [List.takeWhile_append_of_pos hkey, List.dropWhile_append_of_pos hkey]
  cases rest with
  | nil => simp
  | cons c rest =>
    have hc : c = 61 ∨ c = 10 := by simpa using hrest
    rcases hc with rfl | rfl <;> simp

/-- **The loading loop** assigns what the lines of the text say. -/
theorem loadLoop_eq {n : ℕ} {bytes : List UInt8} (hn : bytes.length ≤ n) (t : EnvTable) :
    loadLoop n bytes t = assignLines bytes t := by
  induction n generalizing bytes t with
  | zero =>
    have : bytes = [] := List.eq_nil_of_length_eq_zero (by omega)
    rw [this]
    rfl
  | succ n ih =>
    unfold loadLoop
    rcases cut_cases 61 10 bytes with ⟨heq, hnl⟩ | ⟨key, c, after, rfl, heq, hnl, hc⟩
    · -- the last line has neither a separator nor an end
      have h := (takeWhile_key heq hnl [] (by simp)).2
      rw [List.append_nil] at h
      rw [h]
      unfold assignLines
      rw [assignments_rest heq hnl]
      rfl
    · obtain ⟨h1, h2⟩ := takeWhile_key heq hnl (c :: after) (by simpa using hc)
      rw [h1, h2]
      rw [List.length_append, List.length_cons] at hn
      have hdrop : (after.dropWhile fun c => c ≠ 10).length ≤ after.length := by
        have := congrArg List.length (List.takeWhile_append_dropWhile (p := fun c : UInt8 => c ≠ 10) (l := after))
        rw [List.length_append] at this
        omega
      unfold assignLines
      rcases hc with rfl | rfl
      · rw [assignments_assign heq hnl (by decide)]
        exact ih (by rw [List.length_drop]; omega) _
      · rw [assignments_skip heq hnl]
        exact ih (by omega) t

theorem Represents.assignLines (h : Represents t l) (text : List UInt8) :
    Represents (assignLines text t) (setVars (assignments 61 10 text) l) := by
  unfold Env.assignLines setVars
  generalize assignments 61 10 text = as
  induction as generalizing t l with
  | nil => exact h
  | cons e as ih => exact ih (h.envSet e.1 e.2)

/-- As long as there is room, setting clean entries is assigning them. -/
theorem setVars_eq (h : ∀ e ∈ as, CStr.text e.1 = e.1 ∧ CStr.text e.2 = e.2 ∧ e.1.length ≤ 15 ∧ e.2.length ≤ 31)
    (hlen : (as.foldl (fun m e => assign e.1 e.2 m) l).length ≤ envMaxVars) :
    setVars as l = as.foldl (fun m e => assign e.1 e.2 m) l := by
  induction as generalizing l with
  | nil => rfl
  | cons e as ih =>
    obtain ⟨h1, h2, h3, h4⟩ := h e List.mem_cons_self
    have hset : setVar (CStr.text e.1) (CStr.text e.2) l = assign e.1 e.2 l := by
      unfold setVar
      rw [h1, h2, List.take_of_length_le h3, List.take_of_length_le h4]
      by_cases hk : e.1 ∈ keys l
      · rw [if_pos hk]
      · have := Nat.le_trans (length_le_foldl_assign as (assign e.1 e.2 l)) hlen
        rw [assign_of_notMem hk, List.length_append, List.length_singleton] at this
        rw [if_neg hk, if_pos (by omega), assign_of_notMem hk]
    unfold setVars
    rw [List.foldl_cons, hset]
    exact ih (fun e' he' => h e' (List.mem_cons_of_mem e he')) hlen

/-- Stored strings have no NULs. -/
theorem Represents.text_eq (h : Represents t l) {e : List UInt8 × List UInt8} (he : e ∈ l) :
    CStr.text e.1 = e.1 ∧ CStr.text e.2 = e.2 := by
  obtain ⟨i, hi⟩ := List.mem_iff_getElem?.1 he
  rw [(h.entry i (List.getElem?_eq_some_iff.1 hi).1).2] at hi
  obtain rfl := Option.some.inj hi
  exact ⟨CStr.text_eq_self zero_notMem_str, CStr.text_eq_self zero_notMem_str⟩

end Load

/-! ### Saving and loading -/

/-- `env_save` succeeds on the driver `s`, and the driver `s'` reads back the file it has stored. -/
structure Persisted (t : EnvTable) (s s' : Driver) : Prop where
  saved : (envSave t s).1 ≠ none
  read : ∀ len, 0 < len →
    (fat12ReadFile (some aiosEnv) true len s').1 = some ((saveBytes t).take len)

section Persist

variable {t t₀ t₁ : EnvTable} {l : Vars} {s s' : Driver} {calls : List EnvCall}

theorem stored_getD {bytes : List UInt8} (h : bytes.length ≤ 512) :
    stored (fun i => bytes.getD i 0) bytes.length = bytes := by
  unfold stored
  rw [Nat.min_eq_left h]
  refine List.ext_getElem? fun i => ?_
  by_cases hi : i < bytes.length
  · simp [hi, List.getD_eq_getElem?_getD]
  · rw [List.getElem?_eq_none (by simpa using hi), List.getElem?_eq_none (by simpa using hi)]

/-- **A working disk persists the file**, unless its entry points outside the data area. -/
theorem Represents.persisted (h : Represents t l) (hok : ∀ i, s.dev.fault i = false)
    (hdata : ∀ i cl, target s.dev.cell s.sFatBuf (nameToFat83 aiosEnv) = some (i, cl) → 2 ≤ cl)
    (hres : (envSave t s).1 ≠ none) : Persisted t s (envSave t s).2 := by
  refine ⟨hres, fun len hlen => ?_⟩
  have hread := read_of_write hok aiosEnv (fun i => (saveBytes t).getD i 0) (saveBytes t).length
    (by decide) hdata hres hlen
  rw [stored_getD (by have := h.length_saveBytes; omega)] at hread
  exact hread

theorem Represents.envLoad_eq (h : Represents t l) (hp : Persisted t s s') (u : EnvTable) :
    (envLoad u s').2.1 = loadLoop (saveBytes t).length (saveBytes t) u := by
  have hread := hp.read 511 (by omega)
  rw [List.take_of_length_le h.length_saveBytes] at hread
  unfold envLoad
  rcases hout : fat12ReadFile (some aiosEnv) true 511 s' with ⟨res, s''⟩
  rw [hout] at hread
  obtain rfl : res = some (saveBytes t) := hread
  cases hb : saveBytes t <;> rfl

/-- What a registry that was saved looks like after a reboot. -/
theorem Represents.reload (h : Represents t l) (hp : Persisted t s s') (u : EnvTable) :
    Represents (envLoad (envInit u) s').2.1 (setVars (assignments 61 10 (saveBytes t)) bootVars) := by
  rw [h.envLoad_eq hp, loadLoop_eq (Nat.le_refl _)]
  exact (represents_envInit u).assignLines (saveBytes t)

/-- The key fits and has no delimiter, and the value has no line end. -/
structure EnvCall.Clean (c : EnvCall) : Prop where
  fits : c.key.text.length ≤ 15
  key_eq : 61 ∉ c.key.text
  key_nl : 10 ∉ c.key.text
  value_nl : 10 ∉ c.value.text

/-- The variables of a registry that was built by clean calls. -/
structure CleanVars (l : Vars) : Prop where
  nodup : (keys l).Nodup
  boot : keys bootVars <+: keys l
  clean : ∀ e ∈ l, CleanEntry 61 10 e

theorem CleanVars.setVar (h : CleanVars l) {c : EnvCall} (hc : c.Clean) :
    CleanVars (setVar c.key.text c.value.text l) := by
  have hassign : CleanVars (assign c.key.text (c.value.text.take 31) l) := by
    refine ⟨nodup_keys_assign h.nodup, ?_, fun e he => ?_⟩
    · by_cases hk : c.key.text ∈ keys l
      · rw [keys_assign_of_mem hk]
        exact h.boot
      · rw [assign_of_notMem hk, keys_append]
        exact h.boot.trans (List.prefix_append _ _)
    · rcases mem_of_mem_assign he with rfl | he
      · exact ⟨hc.key_eq, hc.key_nl, fun hmem => hc.value_nl (List.mem_of_mem_take hmem)⟩
      · exact h.clean e he
  unfold Env.setVar
  by_cases hk : c.key.text ∈ keys l
  · rwa [if_pos hk]
  · rw [if_neg hk]
    split
    · rwa [List.take_of_length_le hc.fits, ← assign_of_notMem hk]
    · exact h

theorem cleanVars_bootVars : CleanVars bootVars := by
  refine ⟨by decide, List.prefix_refl _, fun e he => ?_⟩
  simp only [bootVars, List.mem_cons, List.not_mem_nil, or_false] at he
  rcases he with rfl | rfl
  · exact ⟨by decide, by decide, by decide⟩
  · exact ⟨by decide, by decide, by decide⟩

theorem run_cleanVars (hr : Run EnvStep (envInit t₀) calls t) (hc : ∀ c ∈ calls, c.Clean) :
    ∃ l, Represents t l ∧ CleanVars l := by
  refine hr.invariant_of_labels (I := fun t => ∃ l, Represents t l ∧ CleanVars l) ?_
    ⟨_, represents_envInit t₀, cleanVars_bootVars⟩
  rintro c hmem t t' ⟨l, hl, hcl⟩ hstep
  exact ⟨_, hl.envStep hstep, hcl.setVar (hc c hmem)⟩

/-- **Save and load**: after a reboot the registry is the same as before. -/
theorem envLoad_envSave (hr : Run EnvStep (envInit t₀) calls t) (hc : ∀ c ∈ calls, c.Clean)
    (hfit : totalLen t < 512) (hp : Persisted t s s') (key : CStr) :
    envGet (some key) (envLoad (envInit t₁) s').2.1 = envGet (some key) t := by
  obtain ⟨l, hl, hcl⟩ := run_cleanVars hr hc
  have hfold := foldl_assign hcl.nodup hcl.boot
  have hset : setVars l bootVars = l := by
    rw [setVars_eq (fun e he => ?_) (by rw [hfold]; exact hl.length_le), hfold]
    obtain ⟨h1, h2⟩ := hl.text_eq he
    exact ⟨h1, h2, hl.key_le e he, hl.value_le e he⟩
  have hload := hl.reload hp t₁
  rw [hl.saveBytes_of_fits hfit, assignments_render hcl.clean (by decide), hset] at hload
  rw [hload.envGet_eq, hl.envGet_eq]

/-- A blank disk is fit for the file, and a save on it succeeds. -/
theorem blankDisk_fit (t : EnvTable) :
    (∀ i, (Driver.mounted blankDisk fun _ => false).dev.fault i = false) ∧
    (∀ i cl, target (Driver.mounted blankDisk fun _ => false).dev.cell
      (Driver.mounted blankDisk fun _ => false).sFatBuf (nameToFat83 aiosEnv) = some (i, cl) →
      2 ≤ cl) ∧
    (envSave t (.mounted blankDisk fun _ => false)).1 = some (capLen (saveBytes t).length) := by
  obtain ⟨hm, -, hdev⟩ := mounted_spec blankDisk (f := fun _ => false) (by decide)
  have htg := target_blankDisk (fun _ => false) (by decide) (nameToFat83 aiosEnv)
  generalize (Driver.mounted blankDisk fun _ => false) = s at hm hdev htg ⊢
  have hok : ∀ i, s.dev.fault i = false := fun i => by rw [hdev]
  have hspec := (fat12WriteFile_of_ok hm hok aiosEnv (fun i => (saveBytes t).getD i 0)
    (saveBytes t).length).2.2
  rw [htg] at hspec
  refine ⟨hok, fun i cl e => ?_, hspec.1⟩
  rw [htg] at e
  obtain ⟨rfl, rfl⟩ := Prod.mk.inj (Option.some.inj e)
  decide

theorem Represents.persisted_blank (h : Represents t l) :
    Persisted t (.mounted blankDisk fun _ => false)
      (envSave t (.mounted blankDisk fun _ => false)).2 := by
  obtain ⟨hok, hdata, hres⟩ := blankDisk_fit t
  exact h.persisted hok hdata (hres ▸ nofun)

/-- The variable `A=1` is set. -/
def oneVar : EnvTable := setAll [⟨[65], [49]⟩] (envInit zeroTable)

/-- It is saved on a blank disk, and read back. -/
theorem envLoad_envSave_oneVar :
    envGet (some [65]) (envLoad (envInit zeroTable)
      (envSave oneVar (.mounted blankDisk fun _ => false)).2).2.1 = envGet (some [65]) oneVar := by
  have ht : Represents oneVar _ := (represents_envInit zeroTable).setAll [⟨[65], [49]⟩]
  have hclean : ∀ c ∈ [(⟨[65], [49]⟩ : EnvCall)], c.Clean := by
    intro c hc
    obtain rfl := List.mem_singleton.1 hc
    exact ⟨by decide, by decide, by decide, by decide⟩
  have hfit : totalLen oneVar < 512 := by
    rw [ht.totalLen_eq]
    decide
  exact envLoad_envSave (run_setAll _ _) hclean hfit ht.persisted_blank [65]

end Persist

/-! ### Variables that do not fit -/

/-- The text has a line of its own for each of `lines`: it can be cut into pieces with a line end each, and
the lines are among them, in some order. -/
def HasLines (text : List UInt8) (lines : List (List UInt8)) : Prop :=
  ∃ pieces ls : List (List UInt8), pieces.flatten = text ∧ (∀ p ∈ pieces, ∃ q, p = q ++ [10]) ∧
    ls.Perm lines ∧ ls.Sublist pieces

section Complete

variable {t t₀ : EnvTable} {l : Vars} {s : Driver} {calls : List EnvCall}

theorem sum_length_le_of_sublist {α : Type*} {ls ls' : List (List α)} (h : ls.Sublist ls') :
    (ls.map List.length).sum ≤ (ls'.map List.length).sum := by
  induction h with
  | slnil => exact Nat.le_refl _
  | cons _ _ ih =>
    rw [List.map_cons, List.sum_cons]
    omega
  | cons_cons _ _ ih =>
    rw [List.map_cons, List.map_cons, List.sum_cons, List.sum_cons]
    omega

/-- Lines of their own need their room. -/
theorem HasLines.length_le {text : List UInt8} {lines : List (List UInt8)} (h : HasLines text lines) :
    (lines.map List.length).sum ≤ text.length := by
  obtain ⟨pieces, ls, rfl, -, hperm, hsub⟩ := h
  rw [List.length_flatten, ← (hperm.map List.length).sum_nat]
  exact sum_length_le_of_sublist hsub

theorem hasLines_render (l : Vars) : HasLines (render 61 10 l) (l.map (entryLine 61 10)) := by
  refine ⟨l.map (entryLine 61 10), _, rfl, fun p hp => ?_, List.Perm.refl _, List.Sublist.refl _⟩
  obtain ⟨e, -, rfl⟩ := List.mem_map.1 hp
  exact ⟨e.1 ++ 61 :: e.2, by simp [entryLine]⟩

/-- **Nothing is lost on save** exactly if the lines of all variables fit together. -/
theorem envSave_complete_iff (hr : Run EnvStep (envInit t₀) calls t)
    (hok : ∀ i, s.dev.fault i = false)
    (hdata : ∀ i cl, target s.dev.cell s.sFatBuf (nameToFat83 aiosEnv) = some (i, cl) → 2 ≤ cl)
    (hres : (envSave t s).1 ≠ none) :
    (∃ text, (fat12ReadFile (some aiosEnv) true 512 (envSave t s).2).1 = some text ∧
      HasLines text ((usedVars t).map EnvVar.line)) ↔ totalLen t < 512 := by
  obtain ⟨l, hl⟩ := run_represents hr
  have hlen := hl.length_saveBytes
  rw [(hl.persisted hok hdata hres).read 512 (by omega), List.take_of_length_le (by omega)]
  constructor
  · rintro ⟨text, htext, hlines⟩
    obtain rfl := Option.some.inj htext
    have := hlines.length_le
    rw [List.map_map] at this
    change totalLen t ≤ _ at this
    omega
  · intro hfit
    refine ⟨_, rfl, ?_⟩
    rw [hl.map_line, hl.saveBytes_of_fits hfit]
    exact hasLines_render l

/-- All variables of `oneVar` are saved. -/
theorem envSave_complete_oneVar :
    (∃ text, (fat12ReadFile (some aiosEnv) true 512
        (envSave oneVar (.mounted blankDisk fun _ => false)).2).1 = some text ∧
      HasLines text ((usedVars oneVar).map EnvVar.line)) ↔ totalLen oneVar < 512 := by
  obtain ⟨hok, hdata, hres⟩ := blankDisk_fit oneVar
  exact envSave_complete_iff (run_setAll _ _) hok hdata (hres ▸ nofun)

/-- The `i`-th of ten variables with keys of 15 and values of 31 characters. -/
def wideCall (i : ℕ) : EnvCall := ⟨List.replicate 14 75 ++ [UInt8.ofNat (113 + i)], List.replicate 31 118⟩

/-- All ten are set. -/
def wideVars : EnvTable := setAll ((List.range 10).map wideCall) (envInit zeroTable)

/-- **The last variable is lost**: the save succeeds on a blank disk, but no line of the file is that of
the last variable. -/
theorem envSave_drops_variable :
    Run EnvStep (envInit zeroTable) ((List.range 10).map wideCall) wideVars ∧
    (envSave wideVars (.mounted blankDisk fun _ => false)).1 = some 468 ∧
    envGet (some (wideCall 9).key) wideVars = some (wideCall 9).value ∧
    ∃ text, (fat12ReadFile (some aiosEnv) true 512
        (envSave wideVars (.mounted blankDisk fun _ => false)).2).1 = some text ∧
      ¬entryLine 61 10 ((wideCall 9).key, (wideCall 9).value) <:+: text := by
  have h : Represents wideVars _ := (represents_envInit zeroTable).setAll ((List.range 10).map wideCall)
  have hbytes := h.saveBytes_eq
  obtain ⟨-, -, hres⟩ := blankDisk_fit wideVars
  refine ⟨run_setAll _ _, ?_, ?_, saveBytes wideVars, ?_, ?_⟩
  · rw [hres, hbytes]
    decide +kernel
  · rw [h.envGet_eq]
    decide +kernel
  · rw [h.persisted_blank.read 512 (by omega), List.take_of_length_le (by have := h.length_saveBytes; omega)]
  · -- `z` occurs in the key, but not in the file
    intro hinfix
    have hz : (122 : UInt8) ∈ saveBytes wideVars := hinfix.mem (by decide)
    rw [hbytes] at hz
    revert hz
    decide +kernel

end Complete

end AuraOS.Env
