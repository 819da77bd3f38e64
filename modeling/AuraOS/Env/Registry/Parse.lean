import AuraOS.Env.Registry.File

/-!
# The parser of the environment file

`env_load` as it is written: over the indices of its static buffer, with the NULs that it puts in place of the
delimiters and the strings that it passes to `env_set` as pointers into the buffer.  Every access is checked, so
that a result says that the parser has stayed in its buffer and come to an end.  Whatever the file holds, the result
is that of a parser that splits the text into lines (`envLoadBuf_eq`).
-/

namespace AuraOS.Env

open AuraOS.Lib AuraOS.Kernel AuraOS.Env.Fat12

/-- `sizeof(buf)`. -/
abbrev envBufSize : ℕ := 512

/-! ### Checked accesses -/

/-- `buf[i]`. -/
def rdAt (b : Buf envBufSize) (i : ℕ) : Option UInt8 := if i < envBufSize then some (b.rd i) else none

/-- `buf[i] = v`. -/
def wrAt (b : Buf envBufSize) (i : ℕ) (v : UInt8) : Option (Buf envBufSize) :=
  if i < envBufSize then some (b.wr i v) else none

/-- The string at `buf + i`, which is read up to its NUL. -/
def stringAt (b : Buf envBufSize) : ℕ → ℕ → Option CStr
  | 0, _ => none
  | fuel + 1, i => do
    let c ← rdAt b i
    if c = 0 then some [] else do
      let s ← stringAt b fuel (i + 1)
      some (c :: s)

/-! ### `env_load` -/

/-- `while (i < n && …) i++`: the index of the next byte with the property `stop`, or `n`. -/
def scanTo (stop : UInt8 → Bool) (b : Buf envBufSize) (n : ℕ) : ℕ → ℕ → Option ℕ
  | 0, _ => none
  | fuel + 1, i =>
    if i < n then do
      let c ← rdAt b i
      if stop c then some i else scanTo stop b n fuel (i + 1)
    else some i

def isDelimiter (c : UInt8) : Bool := c = 61 || c = 10

def isNewline (c : UInt8) : Bool := c = 10

/-- `!(i >= n || buf[i] != '=')`. -/
def atSeparator (b : Buf envBufSize) (n i : ℕ) : Option Bool :=
  if i < n then do
    let c ← rdAt b i
    some (decide (c = 61))
  else some false

/-- `if (i < 512) buf[i] = '\0'`. -/
def terminate (b : Buf envBufSize) (i : ℕ) : Option (Buf envBufSize) :=
  if i < 512 then wrAt b i 0 else some b

/-- The loop over the lines. -/
def parseLoop (n : ℕ) : ℕ → ℕ → Buf envBufSize → EnvTable → Option EnvTable
  | 0, _, _, _ => none
  | fuel + 1, keyStart, b, t =>
    if keyStart < n then do
      let keyEnd ← scanTo isDelimiter b n (n + 1) keyStart
      let separator ← atSeparator b n keyEnd
      if separator then do
        let valStart := keyEnd + 1
        let valEnd ← scanTo isNewline b n (n + 1) valStart
        let i := if valEnd < n then valEnd + 1 else valEnd
        let b ← terminate b keyEnd
        let b ← terminate b valEnd
        let key ← stringAt b envBufSize keyStart
        let value ← stringAt b envBufSize valStart
        parseLoop n fuel i b (envSet (some key) (some value) t).2
      else do
        let i ← scanTo isNewline b n (n + 1) keyEnd
        parseLoop n fuel (i + 1) b t
    else some t

/-- `env_load` with the buffer `b` of the last call; `none` if it leaves the buffer, or does not end. -/
def envLoadBuf (t : EnvTable) (b : Buf envBufSize) (s : Driver) : Option (Int × EnvTable × Driver) :=
  match fat12ReadFile (some aiosEnv) true (envBufSize - 1) s with
  | (none, s) => some (-1, t, s)
  | (some bytes, s) =>
    let n := bytes.length
    if n = 0 then some (-1, t, s)
    else do
      let b ← wrAt (b.blit 0 n fun i => bytes.getD i 0) n 0
      let t ← parseLoop n (n + 1) 0 b t
      some (0, t, s)

/-! ### What the buffer holds -/

/-- The buffer holds the bytes of `l` from `i` on. -/
def HoldsAt (b : Buf envBufSize) : ℕ → List UInt8 → Prop
  | _, [] => True
  | i, c :: l => b.rd i = c ∧ HoldsAt b (i + 1) l

section Buffer

variable {b : Buf envBufSize} {i j n fuel : ℕ} {c : UInt8} {key l r : List UInt8} {stop : UInt8 → Bool}

theorem holdsAt_append : HoldsAt b i (l ++ r) ↔ HoldsAt b i l ∧ HoldsAt b (i + l.length) r := by
  induction l generalizing i with
  | nil => simp [HoldsAt]
  | cons c l ih => simp [HoldsAt, ih, and_assoc, Nat.add_assoc, Nat.add_comm 1]

/-- A byte outside of the list may change. -/
theorem HoldsAt.wr (h : HoldsAt b i l) (hj : j < i ∨ i + l.length ≤ j) (v : UInt8) (hlt : j < envBufSize) :
    HoldsAt (b.wr j v) i l := by
  induction l generalizing i with
  | nil => trivial
  | cons c l ih =>
    rw [List.length_cons] at hj
    constructor
    · rw [Buf.rd_wr b hlt, if_neg (by omega)]
      exact h.1
    · exact ih h.2 (by omega)

theorem rdAt_eq (h : i < envBufSize) : rdAt b i = some (b.rd i) := if_pos h

theorem holdsAt_blit (n : ℕ) (hn : i + l.length ≤ n) (h512 : n ≤ envBufSize) (f : ℕ → UInt8)
    (hf : ∀ j c, l[j]? = some c → f (i + j) = c) : HoldsAt (b.blit 0 n f) i l := by
  induction l generalizing i with
  | nil => trivial
  | cons c l ih =>
    rw [List.length_cons] at hn
    constructor
    · rw [Buf.rd_blit b 0 n f (by omega), if_pos (by omega)]
      exact hf 0 c rfl
    · apply ih (by omega)
      intro j c' hc
      rw [Nat.add_assoc, Nat.add_comm 1]
      exact hf (j + 1) c' hc

/-- **The scanning loops** stop behind the bytes without the property. -/
theorem scanTo_eq (h : HoldsAt b i (key ++ r)) (hn : i + (key ++ r).length = n) (h512 : n ≤ envBufSize)
    (hkey : ∀ c ∈ key, stop c = false) (hr : ∀ c ∈ r.head?, stop c = true) (hfuel : key.length < fuel) :
    scanTo stop b n fuel i = some (i + key.length) := by
  induction key generalizing i fuel with
  | nil =>
    obtain ⟨fuel, rfl⟩ := Nat.exists_eq_succ_of_ne_zero (Nat.ne_of_gt hfuel)
    unfold scanTo
    cases r with
    | nil =>
      simp at hn
      simp [hn]
    | cons c r =>
      simp at hn
      have hlt : i < n := by omega
      have hstop : stop c = true := by simpa using hr
      simp [hlt, rdAt_eq (b := b) (Nat.lt_of_lt_of_le hlt h512), h.1, hstop]
  | cons c key ih =>
    obtain ⟨fuel, rfl⟩ := Nat.exists_eq_succ_of_ne_zero (Nat.ne_of_gt (Nat.zero_lt_of_lt hfuel))
    have hlen : i + (key.length + r.length + 1) = n := by simpa using hn
    have hrest : scanTo stop b n fuel (i + 1) = some (i + 1 + key.length) := by
      apply ih h.2 (by simp; omega) (fun c hc => hkey c (List.mem_cons_of_mem _ hc))
      simpa using hfuel
    unfold scanTo
    have hlt : i < n := by omega
    have hstop : stop c = false := hkey c List.mem_cons_self
    simp [hlt, rdAt_eq (b := b) (Nat.lt_of_lt_of_le hlt h512), h.1, hstop, hrest]
    omega

/-- **A string in the buffer**, with a NUL behind it. -/
theorem stringAt_eq (h : HoldsAt b i l) (hnul : b.rd (i + l.length) = 0) (hlt : i + l.length < envBufSize)
    (hfuel : l.length < fuel) : stringAt b fuel i = some (CStr.text l) := by
  induction l generalizing i fuel with
  | nil =>
    obtain ⟨fuel, rfl⟩ := Nat.exists_eq_succ_of_ne_zero (Nat.ne_of_gt hfuel)
    unfold stringAt
    simp at hnul hlt
    simp [rdAt_eq hlt, hnul]
  | cons c l ih =>
    obtain ⟨fuel, rfl⟩ := Nat.exists_eq_succ_of_ne_zero (Nat.ne_of_gt (Nat.zero_lt_of_lt hfuel))
    rw [List.length_cons] at hnul hlt hfuel
    unfold stringAt
    rw [rdAt_eq (by omega), h.1]
    by_cases hc : c = 0
    · simp [hc, CStr.text_cons_zero]
    · have hrest := ih h.2 (by rw [Nat.add_assoc, Nat.add_comm 1]; exact hnul) (by omega) (Nat.lt_of_succ_lt_succ hfuel)
      simp [hc, hrest, CStr.text_cons hc]

end Buffer

/-! ### The lines -/

/-- **The entries of a text**: those of the lines with a separator, each part cut at its first NUL. -/
def entries (text : List UInt8) : List (CStr × CStr) :=
  (assignments 61 10 text).map fun e => (CStr.text e.1, CStr.text e.2)

/-- Set the variables of a text one after the other. -/
def setEntries (es : List (CStr × CStr)) (t : EnvTable) : EnvTable :=
  es.foldl (fun t e => (envSet (some e.1) (some e.2) t).2) t

section Lines

variable {b : Buf envBufSize} {i n fuel : ℕ} {key value rest r : List UInt8} {t : EnvTable}

theorem isDelimiter_eq_false (heq : 61 ∉ key) (hnl : 10 ∉ key) : ∀ c ∈ key, isDelimiter c = false := by
  intro c hc
  have h1 : c ≠ 61 := by
    rintro rfl
    exact heq hc
  have h2 : c ≠ 10 := by
    rintro rfl
    exact hnl hc
  simp [isDelimiter, h1, h2]

theorem isNewline_eq_false (hnl : 10 ∉ key) : ∀ c ∈ key, isNewline c = false := by
  intro c hc
  have h : c ≠ 10 := by
    rintro rfl
    exact hnl hc
  simp [isNewline, h]

theorem parseLoop_of_le (h : n ≤ i) (hfuel : 0 < fuel) : parseLoop n fuel i b t = some t := by
  obtain ⟨fuel, rfl⟩ := Nat.exists_eq_succ_of_ne_zero (Nat.ne_of_gt hfuel)
  unfold parseLoop
  exact if_neg (Nat.not_lt.2 h)

/-- A line without a separator is skipped. -/
theorem parseLoop_skip (fuel : ℕ) (t : EnvTable) (h : HoldsAt b i (key ++ r))
    (hn : i + (key ++ r).length = n) (h512 : n < envBufSize) (heq : 61 ∉ key) (hnl : 10 ∉ key)
    (hr : ∀ c ∈ r.head?, c = 10) (hlt : i < n) :
    parseLoop n (fuel + 1) i b t = parseLoop n fuel (i + key.length + 1) b t := by
  obtain ⟨hkey, hrest⟩ := holdsAt_append.1 h
  rw [List.length_append] at hn
  have hkeyEnd : scanTo isDelimiter b n (n + 1) i = some (i + key.length) := by
    apply scanTo_eq h (by rw [List.length_append]; omega) (by omega) (isDelimiter_eq_false heq hnl) ?_ (by omega)
    intro c hc
    rw [hr c hc]
    rfl
  have hsep : atSeparator b n (i + key.length) = some false := by
    unfold atSeparator
    split
    · cases r with
      | nil => simp at hn; omega
      | cons c r =>
        have hc : c = 10 := hr c rfl
        have hrd : b.rd (i + key.length) = 10 := hrest.1.trans hc
        rw [rdAt_eq (by omega), hrd]
        rfl
    · rfl
  have hline : scanTo isNewline b n (n + 1) (i + key.length) = some (i + key.length) := by
    have hrest' : HoldsAt b (i + key.length) ([] ++ r) := hrest
    apply scanTo_eq hrest' (by simpa using by omega) (by omega) nofun ?_ (Nat.succ_pos n)
    intro c hc
    rw [hr c hc]
    rfl
  conv_lhs => unfold parseLoop
  rw [if_pos hlt]
  simp [hkeyEnd, hsep, hline]

/-- The two delimiters are overwritten, and nothing else. -/
theorem exists_terminated (hkey : HoldsAt b i key) (hvalue : HoldsAt b (i + key.length + 1) value)
    (hr : HoldsAt b (i + key.length + 1 + value.length) r)
    (hlt : i + key.length + 1 + value.length + r.length < envBufSize) :
    ∃ b₁ b₂, terminate b (i + key.length) = some b₁ ∧
      terminate b₁ (i + key.length + 1 + value.length) = some b₂ ∧
      HoldsAt b₂ i key ∧ b₂.rd (i + key.length) = 0 ∧
      HoldsAt b₂ (i + key.length + 1) value ∧ b₂.rd (i + key.length + 1 + value.length) = 0 ∧
      HoldsAt b₂ (i + key.length + 1 + value.length + 1) (r.drop 1) := by
  have h512 : envBufSize = 512 := rfl
  have hterm : ∀ {b : Buf envBufSize} {i : ℕ}, i < envBufSize → terminate b i = some (b.wr i 0) := by
    intro b i hi
    unfold terminate wrAt
    rw [if_pos (by omega), if_pos hi]
  refine ⟨_, _, hterm (by omega), hterm (by omega), ?_, ?_, ?_, ?_, ?_⟩
  · apply HoldsAt.wr _ (Or.inr (by omega)) _ (by omega)
    exact hkey.wr (Or.inr (by omega)) _ (by omega)
  · rw [Buf.rd_wr _ (by omega), if_neg (by omega), Buf.rd_wr _ (by omega), if_pos rfl]
  · apply HoldsAt.wr _ (Or.inr (by omega)) _ (by omega)
    exact hvalue.wr (Or.inl (by omega)) _ (by omega)
  · rw [Buf.rd_wr _ (by omega), if_pos rfl]
  · cases r with
    | nil => trivial
    | cons c r =>
      apply HoldsAt.wr _ (Or.inl (by omega)) _ (by omega)
      exact hr.2.wr (Or.inl (by omega)) _ (by omega)

/-- **A line with a separator** is an assignment. -/
theorem parseLoop_assign (fuel : ℕ) (t : EnvTable) (h : HoldsAt b i (key ++ 61 :: (value ++ r)))
    (hn : i + (key ++ 61 :: (value ++ r)).length = n) (h512 : n < envBufSize)
    (heq : 61 ∉ key) (hnl : 10 ∉ key) (hvalue : 10 ∉ value) (hr : ∀ c ∈ r.head?, c = 10) :
    ∃ i' b', i' + (r.drop 1).length = n ∧ HoldsAt b' i' (r.drop 1) ∧
      parseLoop n (fuel + 1) i b t =
        parseLoop n fuel i' b' (envSet (some (CStr.text key)) (some (CStr.text value)) t).2 := by
  obtain ⟨hkey, hsep, hrest⟩ := holdsAt_append.1 h
  obtain ⟨hval, htail⟩ := holdsAt_append.1 hrest
  simp only [List.length_append, List.length_cons] at hn
  have h512' : n < 512 := h512
  have hkeyEnd : scanTo isDelimiter b n (n + 1) i = some (i + key.length) := by
    apply scanTo_eq h (by simp; omega) (by omega) (isDelimiter_eq_false heq hnl) ?_ (by omega)
    intro c hc
    obtain rfl : 61 = c := by simpa using hc
    rfl
  have hat : atSeparator b n (i + key.length) = some true := by
    unfold atSeparator
    rw [if_pos (by omega), rdAt_eq (by omega), hsep]
    rfl
  have hvalEnd : scanTo isNewline b n (n + 1) (i + key.length + 1) = some (i + key.length + 1 + value.length) := by
    apply scanTo_eq hrest (by simp; omega) (by omega) (isNewline_eq_false hvalue) ?_ (by omega)
    intro c hc
    rw [hr c hc]
    rfl
  obtain ⟨b₁, b₂, hb₁, hb₂, hkey', hnul₁, hval', hnul₂, htail'⟩ := exists_terminated hkey hval htail (by omega)
  have hkeyStr : stringAt b₂ envBufSize i = some (CStr.text key) := stringAt_eq hkey' hnul₁ (by omega) (by omega)
  have hvalStr : stringAt b₂ envBufSize (i + key.length + 1) = some (CStr.text value) :=
    stringAt_eq hval' hnul₂ (by omega) (by omega)
  refine ⟨if i + key.length + 1 + value.length < n then i + key.length + 1 + value.length + 1
    else i + key.length + 1 + value.length, b₂, ?_, ?_, ?_⟩
  · rw [List.length_drop]
    split <;> omega
  · cases r with
    | nil => trivial
    | cons c r =>
      rw [List.length_cons] at hn
      rw [if_pos (by omega)]
      exact htail'
  · conv_lhs => unfold parseLoop
    rw [if_pos (by omega)]
    simp [hkeyEnd, hat, hvalEnd, hb₁, hb₂, hkeyStr, hvalStr]

/-- **The loop over the lines** sets the variables of the text. -/
theorem parseLoop_eq (h : HoldsAt b i rest) (hn : i + rest.length = n) (h512 : n < envBufSize)
    (hfuel : rest.length < fuel) (t : EnvTable) :
    parseLoop n fuel i b t = some (setEntries (entries rest) t) := by
  induction fuel generalizing i b rest t with
  | zero => omega
  | succ fuel ih =>
    unfold entries setEntries
    rcases cut_cases 61 10 rest with ⟨heq, hnl⟩ | ⟨key, c, r, rfl, heq, hnl, rfl | rfl⟩
    · rw [assignments_rest heq hnl]
      cases rest with
      | nil => exact parseLoop_of_le (Nat.le_of_eq hn.symm) (Nat.succ_pos fuel)
      | cons c rest =>
        rw [List.length_cons] at hn hfuel
        have h' : HoldsAt b i ((c :: rest) ++ []) := by rwa [List.append_nil]
        have hskip := parseLoop_skip fuel t h' (by simpa using hn) h512 heq hnl nofun (by omega)
        rw [hskip]
        exact parseLoop_of_le (by rw [List.length_cons]; omega) (by omega)
    · have hsplit := List.takeWhile_append_dropWhile (p := fun c : UInt8 => c ≠ 10) (l := r)
      have hall : (r.takeWhile fun c => c ≠ 10).all (fun c => c ≠ 10) = true := List.all_takeWhile
      have hstop := List.head?_dropWhile_not (fun c : UInt8 => c ≠ 10) r
      rw [assignments_assign heq hnl (by decide)]
      generalize (r.takeWhile fun c => c ≠ 10) = value at hsplit hall ⊢
      generalize (r.dropWhile fun c => c ≠ 10) = tail at hsplit hstop ⊢
      subst hsplit
      have hvalue : 10 ∉ value := fun hc => by simpa using List.all_eq_true.1 hall 10 hc
      have htail : ∀ c ∈ tail.head?, c = 10 := by
        intro c hc
        rw [hc] at hstop
        simpa using hstop
      obtain ⟨i', b', hn', hb', hstep⟩ :=
        parseLoop_assign fuel t h hn h512 heq hnl hvalue htail
      rw [hstep]
      apply ih hb' hn'
      simp only [List.length_append, List.length_cons, List.length_drop] at hfuel ⊢
      omega
    · rw [assignments_skip heq hnl]
      have hrest := (holdsAt_append.1 h).2.2
      simp only [List.length_append, List.length_cons] at hn hfuel
      have hskip := parseLoop_skip fuel t h (by simp; omega) h512 heq hnl (by simp) (by omega)
      rw [hskip]
      exact ih hrest (by omega) (by omega) t

end Lines

/-! ### The whole call -/

section Load

variable {t : EnvTable} {s s' : Driver} {bytes : List UInt8} {r : Option (List UInt8)}

/-- `env_set` reads its strings up to their NULs. -/
theorem envSet_text (key value : CStr) (t : EnvTable) :
    envSet (some key.text) (some value.text) t = envSet (some key) (some value) t := by
  have hfind : findVar key.text t = findVar key t := by
    unfold findVar
    simp only [strncmpK_text]
  unfold envSet
  dsimp only
  rw [hfind]
  simp only [strncpyK_text]

theorem setEntries_eq (text : List UInt8) (t : EnvTable) : setEntries (entries text) t = assignLines text t := by
  unfold setEntries entries assignLines
  rw [List.foldl_map]
  simp only [envSet_text]

/-- The file, with a NUL behind it. -/
theorem holdsAt_file (b : Buf envBufSize) (h : bytes.length < envBufSize) :
    HoldsAt ((b.blit 0 bytes.length fun i => bytes.getD i 0).wr bytes.length 0) 0 bytes := by
  apply HoldsAt.wr _ (Or.inr (by omega)) _ h
  apply holdsAt_blit _ (by omega) (by omega)
  intro j c hc
  rw [Nat.zero_add, List.getD_eq_getElem?_getD, hc]
  rfl

/-- **`env_load`**: a file that has bytes is split into lines, and the lines with a separator are assigned in their
order; without one the registry stays as it is.  The parser never leaves its buffer, and comes to an end. -/
theorem envLoadBuf_eq (t : EnvTable) (b : Buf envBufSize) (s : Driver) :
    (∀ bytes s', fat12ReadFile (some aiosEnv) true (envBufSize - 1) s = (some bytes, s') → bytes ≠ [] →
      bytes.length ≤ envBufSize - 1 ∧ envLoadBuf t b s = some (0, setEntries (entries bytes) t, s')) ∧
    (∀ r s', fat12ReadFile (some aiosEnv) true (envBufSize - 1) s = (r, s') → (r = none ∨ r = some []) →
      envLoadBuf t b s = some (-1, t, s')) := by
  unfold envLoadBuf
  constructor
  · intro bytes s' hread hne
    have hlen := length_fat12ReadFile hread
    have h512 : envBufSize = 512 := rfl
    have hlt : bytes.length < envBufSize := by omega
    have hn : bytes.length ≠ 0 := by
      rw [Ne, List.length_eq_zero_iff]
      exact hne
    refine ⟨hlen, ?_⟩
    have hparse := parseLoop_eq (holdsAt_file b hlt) (Nat.zero_add _) hlt (Nat.lt_succ_self _) t
    rw [hread]
    dsimp only
    rw [if_neg hn]
    unfold wrAt
    rw [if_pos hlt]
    simp only [Option.bind_eq_bind, Option.bind_some]
    rw [hparse]
    rfl
  · rintro r s' hread (rfl | rfl)
    · rw [hread]
    · rw [hread]
      rfl

/-- The parser on bytes refines the one on lists. -/
theorem envLoadBuf_eq_envLoad (t : EnvTable) (b : Buf envBufSize) (s : Driver) :
    envLoadBuf t b s = some (envLoad t s) := by
  obtain ⟨hsome, hnone⟩ := envLoadBuf_eq t b s
  rcases hread : fat12ReadFile (some aiosEnv) true 511 s with ⟨_ | bytes, s'⟩
  · rw [hnone _ _ hread (Or.inl rfl)]
    unfold envLoad
    rw [hread]
  · cases bytes with
    | nil =>
      rw [hnone _ _ hread (Or.inr rfl)]
      unfold envLoad
      rw [hread]
    | cons c bytes =>
      rw [(hsome _ _ hread nofun).2, setEntries_eq]
      unfold envLoad
      rw [hread]
      dsimp only
      rw [loadLoop_eq (Nat.le_refl _)]

/-- The file of `oneVar` is parsed. -/
theorem envLoadBuf_oneVar (t : EnvTable) (b : Buf envBufSize) :
    ∃ s', envLoadBuf t b (envSave oneVar (.mounted blankDisk fun _ => false)).2 =
      some (0, setEntries (entries (saveBytes oneVar)) t, s') := by
  have h : Represents oneVar _ := (represents_envInit zeroTable).setAll [⟨[65], [49]⟩]
  have hread := h.persisted_blank.read 511 (by decide)
  rw [List.take_of_length_le h.length_saveBytes] at hread
  rcases hfile : fat12ReadFile (some aiosEnv) true 511 (envSave oneVar (.mounted blankDisk fun _ => false)).2
    with ⟨r, s'⟩
  rw [hfile] at hread
  obtain rfl : r = some (saveBytes oneVar) := hread
  have hne : saveBytes oneVar ≠ [] := by
    rw [h.saveBytes_eq]
    decide
  exact ⟨s', ((envLoadBuf_eq t b _).1 _ s' hfile hne).2⟩

end Load

end AuraOS.Env
